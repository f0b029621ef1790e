/-
  P2pFile.Storage.PublishRace

  Calls of `publish_no_replace` that run at the same time (`src/storage/mod.rs`).

  Each system call is a step of its own.  `hard_link` creates the entry or fails; it fails on
  every entry that is there.  All other outcomes are free: a link to a free name may fail,
  and `symlink_metadata` may say anything.  Other processes may create names at any time.

  A call of the model of one process, `publishLoop`, is a run of one of these calls.
-/

import Mathlib.Data.List.Nodup
import Mathlib.Logic.Function.Basic
import P2pFile.Lib.Machine
import P2pFile.Storage.DiskSpecs

namespace P2pFile.Storage

open Lib

namespace PublishRace

/-- How far a call is; `rest` are the candidates that it has not tried. -/
inductive Phase where
  | trying (rest : List Path)
  | checking (err : Error) (rest : List Path)
  | linked (candidate : Path)
  /-- It has returned an error without a link. -/
  | failed (err : Error)
  /-- It has returned the error of `remove_file`. -/
  | kept (err : Error)
  /-- It has returned the path. -/
  | published (candidate : Path)
  deriving DecidableEq

/-- The arguments of a call, and what is in its temporary file. -/
structure Job (β : Type) where
  temp : Path
  target : Path
  data : β

structure World (ι β : Type) where
  entries : Path → Option β
  phase : ι → Phase

inductive Event (ι β : Type) where
  | link (i : ι) (fault : Option Error)
  | check (i : ι) (metadata : Except Error Unit)
  | remove (i : ι) (fault : Option Error)
  | create (path : Path) (entry : β)

variable {ι β : Type} [DecidableEq ι]

namespace World

def setPhase (s : World ι β) (i : ι) (phase : Phase) : World ι β :=
  { s with phase := Function.update s.phase i phase }

def setEntry (s : World ι β) (path : Path) (entry : Option β) : World ι β :=
  { s with entries := Function.update s.entries path entry }

variable (jobs : ι → Job β) (maxSuffix : Nat)

def step (s : World ι β) : Event ι β → Option (World ι β)
  | .link i fault =>
    match s.phase i with
    | .trying [] => some (s.setPhase i (.failed (.protocol ("正式文件名已耗尽：" ++
        toString (maxSuffix + 1) ++ " 个候选均被占用"))))
    | .trying (candidate :: rest) =>
      match fault with
      | none =>
        match s.entries candidate, s.entries (jobs i).temp with
        | none, some data =>
          some ((s.setEntry candidate (some data)).setPhase i (.linked candidate))
        | _, _ => none
      | some err =>
        some (s.setPhase i
          (if hasKind .alreadyExists err then .trying rest else .checking err rest))
    | _ => none
  | .check i metadata =>
    match s.phase i with
    | .checking err rest =>
      match metadata with
      | .ok () => some (s.setPhase i (.trying rest))
      | .error metadataErr =>
        some (s.setPhase i (.failed (if isNotFound metadataErr then err else metadataErr)))
    | _ => none
  | .remove i fault =>
    match s.phase i with
    | .linked candidate =>
      match fault with
      | none => some ((s.setEntry (jobs i).temp none).setPhase i (.published candidate))
      | some err => some (s.setPhase i (.kept err))
    | _ => none
  | .create path entry =>
    match s.entries path with
    | none => some (s.setEntry path (some entry))
    | some _ => none

end World

/-- All calls begin with their temporary files in place. -/
def machine (jobs : ι → Job β) (maxSuffix : Nat) : Machine (World ι β) (Event ι β) :=
  .ofStep (fun s => ∀ i, s.entries (jobs i).temp = some (jobs i).data ∧
    s.phase i = .trying (candidatePaths (jobs i).target maxSuffix)) (World.step jobs maxSuffix)

/-! ## Steps -/

/-- The call has a link that it may still publish, or has published. -/
def Phase.Holds (phase : Phase) (c : Path) : Prop := phase = .linked c ∨ phase = .published c

/-- What a step does. -/
inductive Effect (jobs : ι → Job β) (s : World ι β) : World ι β → Prop
  /-- A call goes on without a link. -/
  | idle (i : ι) (phase : Phase) (hbefore : ∀ c, s.phase i ≠ .published c)
      (hafter : ∀ c, ¬ phase.Holds c) : Effect jobs s (s.setPhase i phase)
  | link (i : ι) (c : Path) (data : β) (hbefore : ∀ c, ¬ (s.phase i).Holds c)
      (hfree : s.entries c = none) (hdata : s.entries (jobs i).temp = some data) :
      Effect jobs s ((s.setEntry c (some data)).setPhase i (.linked c))
  | publish (i : ι) (c : Path) (hlinked : s.phase i = .linked c) :
      Effect jobs s ((s.setEntry (jobs i).temp none).setPhase i (.published c))
  | create (p : Path) (entry : β) (hfree : s.entries p = none) :
      Effect jobs s (s.setEntry p (some entry))

variable {jobs : ι → Job β} {maxSuffix : Nat} {s t : World ι β}

theorem effect_of_step {e : Event ι β} (h : s.step jobs maxSuffix e = some t) :
    Effect jobs s t := by
  unfold World.step at h
  cases e with
  | link i fault =>
    dsimp only at h
    split at h
    next hphase =>
      cases h
      exact .idle i _ (fun c => by rw [hphase]; nofun) (by rintro c (h | h) <;> cases h)
    next candidate rest hphase =>
      cases fault with
      | none =>
        dsimp only at h
        split at h
        next data hfree hdata =>
          cases h
          refine .link i candidate data ?_ hfree hdata
          rw [hphase]
          rintro c (h | h) <;> cases h
        · cases h
      | some err =>
        cases h
        refine .idle i _ (fun c => by rw [hphase]; nofun) ?_
        split <;> rintro c (h | h) <;> cases h
    · cases h
  | check i metadata =>
    dsimp only at h
    split at h
    next hphase =>
      cases metadata with
      | _ =>
        cases h
        exact .idle i _ (fun c => by rw [hphase]; nofun) (by rintro c (h | h) <;> cases h)
    · cases h
  | remove i fault =>
    dsimp only at h
    split at h
    next candidate hphase =>
      cases fault with
      | none =>
        cases h
        exact .publish i candidate hphase
      | some err =>
        cases h
        exact .idle i _ (fun c => by rw [hphase]; nofun) (by rintro c (h | h) <;> cases h)
    · cases h
  | create path entry =>
    dsimp only at h
    split at h
    next hfree =>
      cases h
      exact .create path entry hfree
    · cases h

/-! ## The invariant -/

structure Inv (jobs : ι → Job β) (s : World ι β) : Prop where
  /-- Only a call that has returned its path has removed its temporary file. -/
  temp : ∀ i, (∀ c, s.phase i ≠ .published c) → s.entries (jobs i).temp = some (jobs i).data
  /-- A link keeps the data, and its name is not a temporary file that is still to go. -/
  held : ∀ i c, (s.phase i).Holds c → s.entries c = some (jobs i).data ∧
    ∀ j, (jobs j).temp = c → ∃ c', s.phase j = .published c'
  apart : ∀ i j c, (s.phase i).Holds c → (s.phase j).Holds c → i = j

theorem phase_setPhase (s : World ι β) (i j : ι) (phase : Phase) :
    (s.setPhase i phase).phase j = if j = i then phase else s.phase j :=
  Function.update_apply ..

omit [DecidableEq ι] in
theorem entries_setEntry (s : World ι β) (p q : Path) (entry : Option β) :
    (s.setEntry p entry).entries q = if q = p then entry else s.entries q :=
  Function.update_apply ..

/-- The new phase of a call, or the old one of another. -/
theorem holds_setPhase {i j : ι} {phase : Phase} {c : Path}
    (h : ((s.setPhase i phase).phase j).Holds c) :
    (j = i ∧ phase.Holds c) ∨ (j ≠ i ∧ (s.phase j).Holds c) := by
  rw [phase_setPhase] at h
  split at h
  next heq =>
    exact .inl ⟨heq, h⟩
  next hne =>
    exact .inr ⟨hne, h⟩

/-- A call that has returned its path stays so. -/
theorem Effect.published (h : Effect jobs s t) {i : ι} {c : Path} (hi : s.phase i = .published c) :
    t.phase i = .published c := by
  cases h with
  | idle j phase hbefore hafter =>
    rw [phase_setPhase, if_neg (by rintro rfl; exact hbefore c hi)]
    exact hi
  | link j c' data hbefore hfree hdata =>
    rw [phase_setPhase, if_neg (by rintro rfl; exact hbefore c (.inr hi))]
    exact hi
  | publish j c' hlinked =>
    rw [phase_setPhase, if_neg fun heq => by rw [heq, hlinked] at hi; cases hi]
    exact hi
  | create p entry hfree => exact hi

/-- A step keeps every entry, but for the temporary file of a call that returns its path. -/
theorem Effect.entries (h : Effect jobs s t) {p : Path} {entry : β}
    (hp : s.entries p = some entry) : t.entries p = some entry ∨
      ∃ i c, p = (jobs i).temp ∧ s.phase i = .linked c ∧ t.phase i = .published c := by
  cases h with
  | idle i phase hbefore hafter => exact .inl hp
  | link i c data hbefore hfree hdata =>
    left
    show (s.setEntry c (some data)).entries p = _
    rw [entries_setEntry, if_neg fun heq => by rw [heq, hfree] at hp; cases hp]
    exact hp
  | publish i c hlinked =>
    by_cases heq : p = (jobs i).temp
    · exact .inr ⟨i, c, heq, hlinked, by rw [phase_setPhase, if_pos rfl]⟩
    left
    show (s.setEntry (jobs i).temp none).entries p = _
    rw [entries_setEntry, if_neg heq]
    exact hp
  | create q entry' hfree =>
    left
    rw [entries_setEntry, if_neg fun heq => by rw [heq, hfree] at hp; cases hp]
    exact hp

theorem Inv.effect (htemps : ∀ i j, (jobs i).temp = (jobs j).temp → i = j) (h : Inv jobs s)
    (he : Effect jobs s t) : Inv jobs t := by
  have htemp : ∀ i, (∀ c, t.phase i ≠ .published c) →
      t.entries (jobs i).temp = some (jobs i).data := by
    intro i hi
    have hbefore := h.temp i fun c hc => hi c (he.published hc)
    refine (he.entries hbefore).resolve_right ?_
    rintro ⟨j, c, heq, -, hj⟩
    exact hi c (htemps _ _ heq ▸ hj)
  -- A link that was there is still there: its name is no temporary file that may go.
  have hheld : ∀ i c, (s.phase i).Holds c → t.entries c = some (jobs i).data ∧
      ∀ j, (jobs j).temp = c → ∃ c', t.phase j = .published c' := by
    intro i c hc
    obtain ⟨hentry, hgone⟩ := h.held i c hc
    refine ⟨(he.entries hentry).resolve_right ?_, fun j hj => ?_⟩
    · rintro ⟨j, c', rfl, hlinked, -⟩
      obtain ⟨c'', hc''⟩ := hgone j rfl
      rw [hlinked] at hc''
      cases hc''
    · obtain ⟨c', hc'⟩ := hgone j hj
      exact ⟨c', he.published hc'⟩
  have hnew : ∀ {i c}, (t.phase i).Holds c → (s.phase i).Holds c ∨
      (s.entries c = none ∧ t.entries c = some (jobs i).data ∧
        ∀ j, (t.phase j).Holds c → j = i) := by
    intro i c hc
    cases he with
    | idle j phase hbefore hafter =>
      rcases holds_setPhase hc with ⟨-, hphase⟩ | ⟨-, hphase⟩
      · exact absurd hphase (hafter c)
      · exact .inl hphase
    | link j c' data hbefore hfree hdata =>
      rcases holds_setPhase hc with ⟨rfl, hphase⟩ | ⟨-, hphase⟩
      · right
        obtain rfl : c' = c := by
          rcases hphase with hphase | hphase
          · exact Phase.linked.inj hphase
          · cases hphase
        have hdata' := h.temp i fun c hi => hbefore c (.inr hi)
        refine ⟨hfree, ?_, fun k hk => ?_⟩
        · show (s.setEntry c' (some data)).entries c' = _
          rw [entries_setEntry, if_pos rfl, ← hdata, hdata']
        · rcases holds_setPhase hk with ⟨rfl, -⟩ | ⟨-, hk⟩
          · rfl
          · have htaken := (h.held k c' hk).1
            rw [hfree] at htaken
            cases htaken
      · exact .inl hphase
    | publish j c' hlinked =>
      rcases holds_setPhase hc with ⟨rfl, hphase⟩ | ⟨-, hphase⟩
      · rcases hphase with hphase | hphase
        · cases hphase
        · exact .inl (.inl (Phase.published.inj hphase ▸ hlinked))
      · exact .inl hphase
    | create p entry hfree => exact .inl hc
  refine ⟨htemp, fun i c hc => ?_, fun i j c hi hj => ?_⟩
  · rcases hnew hc with hc | ⟨hfree, hentry, -⟩
    · exact hheld i c hc
    · refine ⟨hentry, fun j hj => ?_⟩
      by_contra hpend
      -- A call that has not returned its path still has its temporary file.
      have hthere := h.temp j fun c' hc' => hpend ⟨c', he.published hc'⟩
      rw [hj, hfree] at hthere
      cases hthere
  · rcases hnew hi with hi' | ⟨-, -, honly⟩
    · rcases hnew hj with hj' | ⟨-, -, honly⟩
      · exact h.apart i j c hi' hj'
      · exact honly i hi
    · exact (honly j hj).symm

/-- Along any steps an entry goes away only if it is the temporary file of a call that has
    returned its path since. -/
theorem entries_of_steps {es : List (Event ι β)} (h : (machine jobs maxSuffix).Steps s es t)
    {p : Path} {entry : β} (hp : s.entries p = some entry) :
    t.entries p = some entry ∨ ∃ i, p = (jobs i).temp ∧ (∀ c, s.phase i ≠ .published c) ∧
      ∃ c, t.phase i = .published c := by
  have hstays : ∀ {es t}, (machine jobs maxSuffix).Steps s es t → ∀ {i c},
      s.phase i = .published c → t.phase i = .published c := by
    intro es t hsteps i c hi
    exact hsteps.inv (I := fun s => s.phase i = .published c)
      (fun _ _ _ hi hstep => (effect_of_step hstep).published hi) hi
  induction h with
  | nil => exact .inl hp
  | snoc hsteps hstep ih =>
    have he := effect_of_step hstep
    rcases ih with hmiddle | ⟨i, heq, hbefore, c, hc⟩
    · rcases he.entries hmiddle with hentry | ⟨i, c, heq, hlinked, hc⟩
      · exact .inl hentry
      · refine .inr ⟨i, heq, fun c' hc' => ?_, c, hc⟩
        rw [hstays hsteps hc'] at hlinked
        cases hlinked
    · exact .inr ⟨i, heq, hbefore, c, he.published hc⟩

/-! ## The call of one process -/

section Refines

variable {jobs : ι → Job Entry} {start : World ι Entry} {i : ι}

/-- Steps from `start` lead to the names of the disk, with the call `i` in a phase in `P`. -/
def Reached (jobs : ι → Job Entry) (maxSuffix : Nat) (start : World ι Entry) (i : ι)
    (P : Phase → Prop) (disk : Disk) : Prop :=
  ∃ es w, (machine jobs maxSuffix).Steps start es w ∧ w.entries = disk.entries ∧ P (w.phase i)

variable {P Q : Phase → Prop} {disk : Disk}

theorem Reached.mono (h : Reached jobs maxSuffix start i P disk)
    (hPQ : ∀ phase, P phase → Q phase) :
    Reached jobs maxSuffix start i Q disk := by
  obtain ⟨es, w, hsteps, hentries, hphase⟩ := h
  exact ⟨es, w, hsteps, hentries, hPQ _ hphase⟩

/-- One more step. -/
theorem Reached.step {disk' : Disk} {phase : Phase} (e : Event ι Entry)
    (h : Reached jobs maxSuffix start i (· = phase) disk)
    (hstep : ∀ w : World ι Entry, w.entries = disk.entries → w.phase i = phase →
      ∃ w', w.step jobs maxSuffix e = some w' ∧ w'.entries = disk'.entries ∧ Q (w'.phase i)) :
    Reached jobs maxSuffix start i Q disk' := by
  obtain ⟨es, w, hsteps, hentries, hphase⟩ := h
  obtain ⟨w', heq, hrest⟩ := hstep w hentries hphase
  exact ⟨es ++ [e], w', hsteps.append (.single heq), hrest⟩

/-- A step of the call that touches no name. -/
theorem Reached.advance {phase phase' : Phase} (e : Event ι Entry)
    (h : Reached jobs maxSuffix start i (· = phase) disk)
    (hstep : ∀ w : World ι Entry, w.phase i = phase →
      w.step jobs maxSuffix e = some (w.setPhase i phase')) :
    Reached jobs maxSuffix start i (· = phase') disk :=
  h.step e fun w hentries hphase => ⟨_, hstep w hphase, hentries, Function.update_self ..⟩

variable {candidate : Path} {rest : List Path}

theorem hardLink_reached : Prog.Triple
    (Reached jobs maxSuffix start i (· = .trying (candidate :: rest)))
    (hardLink (jobs i).temp candidate)
    (fun _ => Reached jobs maxSuffix start i (· = .linked candidate))
    (Reached jobs maxSuffix start i (· = .trying (candidate :: rest)))
    (Reached jobs maxSuffix start i fun _ => True) := by
  refine .atomic (fun _ h => h) (fun _ h => h.mono fun _ _ => trivial) ?_
  intro s _ t hs hok
  have hlinked : Reached jobs maxSuffix start i (· = .linked candidate) t := by
    refine hs.step (.link i none) fun w hentries hphase => ?_
    unfold World.step
    dsimp only
    rw [hphase, hentries]
    split at hok
    · cases hok
    · cases hok
    · cases hok
    next k htemp hfree =>
      cases hok
      dsimp only
      rw [hfree, htemp]
      refine ⟨_, rfl, ?_, Function.update_self ..⟩
      show Function.update w.entries candidate _ = Function.update s.entries candidate _
      rw [hentries]
  exact ⟨hlinked, hlinked.mono fun _ _ => trivial⟩

theorem removeFile_reached : Prog.Triple
    (Reached jobs maxSuffix start i (· = .linked candidate)) (removeFile (jobs i).temp)
    (fun _ => Reached jobs maxSuffix start i (· = .published candidate))
    (Reached jobs maxSuffix start i fun phase => ∃ err, phase = .failed err ∨ phase = .kept err)
    (Reached jobs maxSuffix start i fun _ => True) := by
  refine .atomic (fun s hs => ?_) (fun _ h => h.mono fun _ _ => trivial) ?_
  · refine (hs.advance (.remove i (some notFound)) fun w hphase => ?_).mono
      fun phase hkept => ⟨notFound, .inr hkept⟩
    unfold World.step
    dsimp only
    rw [hphase]
  intro s _ t hs hok
  have hpublished : Reached jobs maxSuffix start i (· = .published candidate) t := by
    refine hs.step (.remove i none) fun w hentries hphase => ?_
    unfold World.step
    dsimp only
    rw [hphase]
    split at hok
    · cases hok
      refine ⟨_, rfl, ?_, Function.update_self ..⟩
      show Function.update w.entries (jobs i).temp none = Function.update s.entries _ none
      rw [hentries]
    · cases hok
    · cases hok
  exact ⟨hpublished, hpublished.mono fun _ _ => trivial⟩

/-- Whatever becomes of its calls, the loop makes steps of the race: it publishes the path it
    returns, and after an error it has failed or kept its temporary file. -/
theorem publishLoop_reached (candidates : List Path) : Prog.Triple
    (Reached jobs maxSuffix start i (· = .trying candidates))
    (publishLoop (jobs i).temp maxSuffix candidates)
    (fun path => Reached jobs maxSuffix start i (· = .published path))
    (Reached jobs maxSuffix start i fun phase => ∃ err, phase = .failed err ∨ phase = .kept err)
    (Reached jobs maxSuffix start i fun _ => True) := by
  induction candidates with
  | nil =>
    refine .throw fun s hs => hs.step (.link i none) fun w hentries hphase => ?_
    unfold World.step
    dsimp only
    rw [hphase]
    exact ⟨_, rfl, hentries, _, .inl (Function.update_self ..)⟩
  | cons candidate rest ih =>
    refine Prog.Triple.attempt_bind hardLink_reached (fun _ => ?_) fun err => ?_
    · exact .bind removeFile_reached fun _ => .pure fun _ h => h
    have hlink : ∀ s, Reached jobs maxSuffix start i (· = .trying (candidate :: rest)) s →
        Reached jobs maxSuffix start i
          (· = if hasKind .alreadyExists err then .trying rest else .checking err rest) s := by
      refine fun s hs => hs.advance (.link i (some err)) fun w hphase => ?_
      unfold World.step
      dsimp only
      rw [hphase]
    dsimp only
    split
    next hexists =>
      exact ih.pre fun s hs => (hlink s hs).mono fun _ h => by rwa [if_pos hexists] at h
    next hother =>
      refine Prog.Triple.pre (R := Reached jobs maxSuffix start i (· = .checking err rest)) ?_
        fun s hs => (hlink s hs).mono fun _ h => by rwa [if_neg hother] at h
      have hcheck : ∀ (metadata : Except Error Unit) s,
          Reached jobs maxSuffix start i (· = .checking err rest) s →
          Reached jobs maxSuffix start i (· = match metadata with
            | .ok () => .trying rest
            | .error metadataErr =>
              .failed (if isNotFound metadataErr then err else metadataErr)) s := by
        refine fun metadata s hs => hs.advance (.check i metadata) fun w hphase => ?_
        unfold World.step
        dsimp only
        rw [hphase]
        cases metadata with
        | _ => rfl
      refine .bind (R := fun _ => Reached jobs maxSuffix start i (· = .checking err rest))
        (.attempt (Prog.Triple.exits (symlinkMetadata_spec candidate) (fun _ h => h)
          fun _ h => h.mono fun _ _ => trivial) fun _ _ h => h) ?_
      intro metadata
      cases metadata with
      | ok => exact ih.pre (hcheck (.ok ()))
      | error metadataErr =>
        dsimp only
        split
        · exact .throw fun s hs => (hcheck (.error metadataErr) s hs).mono fun _ h => ⟨_, .inl h⟩
        · exact .throw fun s hs => (hcheck (.error metadataErr) s hs).mono fun _ h => ⟨_, .inl h⟩

/-- The call of `finalize` is one of the calls of the race. -/
theorem publishNoReplace_reached : Prog.Triple
    (fun disk => start.entries = disk.entries ∧
      start.phase i = .trying (candidatePaths (jobs i).target maxFinalizeSuffix))
    (publishNoReplace (jobs i).temp (jobs i).target)
    (fun path => Reached jobs maxFinalizeSuffix start i (· = .published path))
    (Reached jobs maxFinalizeSuffix start i fun phase =>
      ∃ err, phase = .failed err ∨ phase = .kept err)
    (Reached jobs maxFinalizeSuffix start i fun _ => True) :=
  (publishLoop_reached _).pre fun _ h => ⟨[], start, .nil _, h⟩

end Refines

/-! ## Candidates -/

variable (target : Path)

/-- What follows the number in a candidate. -/
def afterNumber : String :=
  match Path.extension target with
  | some ext => ")." ++ ext
  | none => ")"

/-- The numbered candidate `k`. -/
def numbered (k : Nat) : Path :=
  (Path.parent target).getD [] ++ [(Path.fileStem target).getD "download" ++
    (" (" ++ (toString (k + 1) ++ afterNumber target))]

theorem candidatePaths_eq (maxSuffix : Nat) :
    candidatePaths target maxSuffix = target :: (List.range maxSuffix).map (numbered target) := by
  unfold candidatePaths
  dsimp only
  congr 1
  apply List.map_congr_left
  intro k _
  have hlong : 2 ≤ (" (" ++ (toString (k + 1) ++ afterNumber target)).length := by
    have htwo : " (".length = 2 := by decide
    rw [String.length_append, htwo]
    omega
  rw [numbered, ← join_append _ _ hlong, afterNumber]
  cases Path.extension target with
  | _ => simp only [String.append_assoc]

theorem numbered_injective : Function.Injective (numbered target) := by
  intro k k' h
  have hname := congrArg String.toList (List.cons.inj (List.append_cancel_left h)).1
  simp only [String.toList_append] at hname
  have hnumber := List.append_cancel_right (List.append_cancel_left (List.append_cancel_left hname))
  rw [Nat.toString_eq_ofList_toDigits, Nat.toString_eq_ofList_toDigits, String.toList_ofList,
    String.toList_ofList] at hnumber
  have hsucc := congrArg (Nat.ofDigitChars 10 · 0) hnumber
  simp only [Nat.ofDigitChars_ten_toDigits] at hsucc
  omega

/-- A numbered candidate is longer than the target. -/
theorem numbered_ne_target (k : Nat) : numbered target k ≠ target := by
  rcases List.eq_nil_or_concat' target with rfl | ⟨dir, name, rfl⟩
  · exact List.append_ne_nil_of_right_ne_nil _ (List.cons_ne_nil _ _)
  intro h
  have hparent : (Path.parent (dir ++ [name])).getD [] = dir := by
    rw [Path.parent, if_neg (List.append_ne_nil_of_right_ne_nil _ (List.cons_ne_nil _ _)),
      Option.getD_some, List.dropLast_concat]
  rw [numbered, hparent] at h
  have hname := congrArg String.toList (List.cons.inj (List.append_cancel_left h)).1
  have hlen := congrArg List.length hname
  simp only [String.toList_append, List.length_append] at hlen
  have hblank : " (".toList.length = 2 := rfl
  unfold afterNumber Path.fileStem Path.extension Path.fileName at hlen
  rw [List.getLast?_concat] at hlen
  dsimp only at hlen
  split at hlen
  next hup =>
    have hdots : "..".toList.length = 2 := rfl
    have hdownload : "download".toList.length = 8 := rfl
    rw [hup, Option.map_none, Option.getD_none] at hlen
    omega
  · have hsplit := congrArg List.length (splitName_spec name)
    rw [Option.map_some, Option.getD_some, Option.bind_some] at hlen
    rw [List.length_append] at hsplit
    cases hext : (splitName name).2 with
    | none =>
      rw [hext, List.length_nil] at hsplit
      omega
    | some ext =>
      rw [hext, List.length_cons] at hsplit
      rw [hext] at hlen
      simp only [String.toList_append, List.length_append] at hlen
      omega

theorem candidatePaths_nodup (maxSuffix : Nat) : (candidatePaths target maxSuffix).Nodup := by
  rw [candidatePaths_eq, List.nodup_cons]
  refine ⟨fun hmem => ?_, List.nodup_range.map (numbered_injective target)⟩
  obtain ⟨k, -, hk⟩ := List.mem_map.mp hmem
  exact numbered_ne_target target k hk

end PublishRace

open PublishRace in
/-- Any number of calls with different temporary files, among themselves and with others that
    create names: an entry goes away only if it is the temporary file of a call that returns
    its path; a returned path is the name of the data of its call and of no other call; until
    a call returns its path its temporary file is there, and then it is gone; and the
    candidates of a call are all different. -/
theorem publication_never_replaces {ι β : Type} [DecidableEq ι] (jobs : ι → Job β)
    (htemps : ∀ i j, (jobs i).temp = (jobs j).temp → i = j) (maxSuffix : Nat)
    (es : List (PublishRace.Event ι β)) (s : World ι β) (hrun : (machine jobs maxSuffix).Run es s) :
    (∀ es' t, (machine jobs maxSuffix).Steps s es' t → ∀ p entry, s.entries p = some entry →
      t.entries p = some entry ∨ ∃ i, p = (jobs i).temp ∧ entry = (jobs i).data ∧
        (∀ c, s.phase i ≠ .published c) ∧ ∃ c, t.phase i = .published c) ∧
      (∀ i j c, s.phase i = .published c → s.phase j = .published c → i = j) ∧
      (∀ i c, s.phase i = .published c → s.entries c = some (jobs i).data) ∧
      (∀ i c t, s.phase i = .linked c → (machine jobs maxSuffix).step s (.remove i none) t →
        t.phase i = .published c ∧ t.entries (jobs i).temp = none) ∧
      (∀ i, (∀ c, s.phase i ≠ .published c) → s.entries (jobs i).temp = some (jobs i).data) ∧
      ∀ i, (candidatePaths (jobs i).target maxSuffix).Nodup := by
  have hinv : Inv jobs s := by
    refine hrun.inv (fun s₀ h₀ => ?_) fun _ _ _ h hstep => h.effect htemps (effect_of_step hstep)
    refine ⟨fun i _ => (h₀ i).1, fun i c hc => ?_, fun i j c hc => ?_⟩
    · rw [Phase.Holds, (h₀ i).2] at hc
      rcases hc with hc | hc <;> cases hc
    · rw [Phase.Holds, (h₀ i).2] at hc
      rcases hc with hc | hc <;> cases hc
  refine ⟨fun es' t hsteps p entry hp => ?_,
    fun i j c hi hj => hinv.apart i j c (.inr hi) (.inr hj),
    fun i c hc => (hinv.held i c (.inr hc)).1, fun i c t hlinked hstep => ?_, hinv.temp,
    fun i => candidatePaths_nodup _ _⟩
  · refine (entries_of_steps hsteps hp).imp_right ?_
    rintro ⟨i, rfl, hbefore, hc⟩
    rw [hinv.temp i hbefore] at hp
    exact ⟨i, rfl, (Option.some.inj hp).symm, hbefore, hc⟩
  · have hstep : s.step jobs maxSuffix (.remove i none) = some t := hstep
    unfold World.step at hstep
    dsimp only at hstep
    rw [hlinked] at hstep
    cases hstep
    exact ⟨Function.update_self .., Function.update_self ..⟩

namespace Sample

open PublishRace

/-- Two downloads of one name. -/
def twoJobs (second : Bool) : Job Nat :=
  if second then ⟨["d", "b.part"], ["d", "a.txt"], 2⟩ else ⟨["d", "a.part"], ["d", "a.txt"], 1⟩

/-- Both find the name free, and the second comes too late. -/
def twoEvents : List (PublishRace.Event Bool Nat) :=
  [.link false none, .link true (some (.io .alreadyExists "")), .link true none,
    .remove true none, .remove false none]

def twoStart : World Bool Nat where
  entries p := if p = ["d", "a.part"] then some 1 else if p = ["d", "b.part"] then some 2 else none
  phase i := .trying (candidatePaths (twoJobs i).target 1)

end Sample

open PublishRace in
theorem publication_never_replaces_two : ∃ s, (machine Sample.twoJobs 1).Run Sample.twoEvents s ∧
      s.phase true = .published ["d", "a (1).txt"] ∧ s.entries ["d", "a.txt"] = some 1 ∧
      s.entries ["d", "a (1).txt"] = some 2 := by
  have hend : (Machine.exec (World.step Sample.twoJobs 1) Sample.twoStart Sample.twoEvents).any
      (fun s => s.phase false = .published ["d", "a.txt"] ∧
        s.phase true = .published ["d", "a (1).txt"]) = true := by
    decide +kernel
  obtain ⟨s, hs, hphases⟩ := (Option.any_eq_true _ _).mp hend
  obtain ⟨hfirst, hsecond⟩ := of_decide_eq_true hphases
  have hrun : (machine Sample.twoJobs 1).Run Sample.twoEvents s :=
    Machine.run_of_exec (fun i => by cases i <;> exact ⟨by decide, rfl⟩) hs
  obtain ⟨-, -, hdata, -⟩ := publication_never_replaces Sample.twoJobs
    (by decide) 1 Sample.twoEvents s hrun
  exact ⟨s, hrun, hsecond, hdata false _ hfirst, hdata true _ hsecond⟩

end P2pFile.Storage
