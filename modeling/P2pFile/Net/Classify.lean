/-
  P2pFile.Net.Classify

  How a NAT maps addresses, from STUN observations (`src/nat/classify.rs`).

  `classify_mapping` judges a list of observations by its pairs; `probe_rfc5780_with`
  judges as it goes, in at most three queries.
-/

import Mathlib.Data.Finset.Card
import P2pFile.Identity
import P2pFile.Net.Family

namespace P2pFile.Net

open Lib

inductive MappingEvidence where
  | rfc5780
  | insufficientEvidence
  deriving DecidableEq

inductive MappingBehavior where
  | endpointIndependent
  | addressDependent
  | addressAndPortDependent
  | unknown
  deriving DecidableEq

structure StunObservation where
  server : SocketAddr
  mappedAddr : SocketAddr
  deriving DecidableEq

/-- `StunResult`, without the fields that no classifier reads. -/
structure StunResult where
  mappedAddr : SocketAddr
  otherAddress : Option SocketAddr

/-- `MappingProbe`; `filtering` has one value only. -/
structure MappingProbe where
  observations : List StunObservation
  otherAddress : Option SocketAddr
  mapping : MappingBehavior
  evidence : MappingEvidence

/-! ## The classifier of a list -/

/-- One server address, two ports. -/
def Siblings (left right : StunObservation) : Prop :=
  left.server.ip = right.server.ip ∧ left.server.port ≠ right.server.port

instance (left right : StunObservation) : Decidable (Siblings left right) :=
  inferInstanceAs (Decidable (_ ∧ _))

/-- The inner loop over the pairs: whether it has seen siblings, or none if it returns. -/
def compareWith (left : StunObservation) : List StunObservation → Bool → Option Bool
  | [], seen => some seen
  | right :: rest, seen =>
    if Siblings left right then
      if left.mappedAddr ≠ right.mappedAddr then none else compareWith left rest true
    else compareWith left rest seen

/-- The outer loop. -/
def comparePairs : List StunObservation → Bool → Option Bool
  | [], seen => some seen
  | left :: rest, seen => do
    let seen ← compareWith left rest seen
    comparePairs rest seen

variable (observations : List StunObservation)

/-- `distinct_ips`. -/
def distinctIps : Finset IpAddr := (observations.map fun o => o.server.ip).toFinset

/-- `classify_mapping` on two observations or more, of which the first has mapping `first`. -/
def classifyAll (first : SocketAddr) (observations : List StunObservation) : MappingBehavior :=
  if observations.any fun o => !o.server.isIpv4 || !o.mappedAddr.isIpv4 then .unknown
  else if 2 ≤ (distinctIps observations).card ∧ observations.all fun o => o.mappedAddr = first then
    .endpointIndependent
  else
    match comparePairs observations false with
    | none => .addressAndPortDependent
    | some sameIpDifferentPort =>
      if sameIpDifferentPort = false ∨ ¬ 2 ≤ (distinctIps observations).card then .unknown
      else if observations.any fun o => o.mappedAddr ≠ first then .addressDependent
      else .unknown

/-- `classify_mapping`. -/
def classifyMapping : MappingBehavior :=
  match observations with
  | [] | [_] => .unknown
  | head :: _ => classifyAll head.mappedAddr observations

/-! ## The verdict on a set -/

variable {observations : List StunObservation}

theorem compareWith_eq (left : StunObservation) (rest : List StunObservation) (seen : Bool) :
    compareWith left rest seen =
      if ∃ right ∈ rest, Siblings left right ∧ left.mappedAddr ≠ right.mappedAddr then none
      else some (seen || decide (∃ right ∈ rest, Siblings left right)) := by
  induction rest generalizing seen with
  | nil => simp [compareWith]
  | cons right rest ih =>
    unfold compareWith
    by_cases hsib : Siblings left right
    · by_cases hmap : left.mappedAddr = right.mappedAddr
      · simp [hsib, hmap, ih]
      · simp [hsib, hmap]
    · simp [hsib, ih]

/-- Two observations with one server address and two ports. -/
def HasSiblings (observations : List StunObservation) : Prop :=
  ∃ left ∈ observations, ∃ right ∈ observations, Siblings left right

/-- Two such observations that differ in the mapping. -/
def HasConflict (observations : List StunObservation) : Prop :=
  ∃ left ∈ observations, ∃ right ∈ observations,
    Siblings left right ∧ left.mappedAddr ≠ right.mappedAddr

def HasTwoIps (observations : List StunObservation) : Prop :=
  ∃ left ∈ observations, ∃ right ∈ observations, left.server.ip ≠ right.server.ip

/-- A symmetric and irreflexive relation of two elements holds of the head and a later one, or
    of two later ones. -/
theorem exists_pair_cons {R : StunObservation → StunObservation → Prop} (hirrefl : ∀ o, ¬ R o o)
    (hsymm : ∀ l r, R l r → R r l) {o : StunObservation} :
    (∃ l ∈ o :: observations, ∃ r ∈ o :: observations, R l r) ↔
      (∃ r ∈ observations, R o r) ∨ ∃ l ∈ observations, ∃ r ∈ observations, R l r := by
  constructor
  · rintro ⟨l, hl, r, hr, h⟩
    rcases List.mem_cons.mp hl with rfl | hl'
    · rcases List.mem_cons.mp hr with rfl | hr'
      · exact absurd h (hirrefl _)
      · exact .inl ⟨r, hr', h⟩
    · rcases List.mem_cons.mp hr with rfl | hr'
      · exact .inl ⟨l, hl', hsymm _ _ h⟩
      · exact .inr ⟨l, hl', r, hr', h⟩
  · rintro (⟨r, hr, h⟩ | ⟨l, hl, r, hr, h⟩)
    · exact ⟨o, (.head _), r, .tail _ hr, h⟩
    · exact ⟨l, .tail _ hl, r, .tail _ hr, h⟩

theorem Siblings.symm {left right : StunObservation} (h : Siblings left right) :
    Siblings right left :=
  ⟨h.1.symm, h.2.symm⟩

open Classical in
theorem comparePairs_eq (seen : Bool) : comparePairs observations seen =
      if HasConflict observations then none
      else some (seen || decide (HasSiblings observations)) := by
  induction observations generalizing seen with
  | nil => simp [comparePairs, HasConflict, HasSiblings]
  | cons o observations ih =>
    have hconflict : HasConflict (o :: observations) ↔
        (∃ r ∈ observations, Siblings o r ∧ o.mappedAddr ≠ r.mappedAddr) ∨
          HasConflict observations :=
      exists_pair_cons (fun _ h => h.2 rfl) fun _ _ h => ⟨h.1.symm, h.2.symm⟩
    have hsiblings : HasSiblings (o :: observations) ↔
        (∃ r ∈ observations, Siblings o r) ∨ HasSiblings observations :=
      exists_pair_cons (fun _ h => h.2 rfl) fun _ _ h => h.symm
    rw [comparePairs, compareWith_eq]
    simp only [hconflict, hsiblings]
    by_cases hhead : ∃ r ∈ observations, Siblings o r ∧ o.mappedAddr ≠ r.mappedAddr
    · rw [if_pos hhead, if_pos (.inl hhead)]
      rfl
    rw [if_neg hhead, Option.bind_eq_bind, Option.bind_some, ih]
    by_cases htail : HasConflict observations
    · rw [if_pos htail, if_pos (.inr htail)]
    · rw [if_neg htail, if_neg (not_or.mpr ⟨hhead, htail⟩), Bool.or_assoc, Bool.decide_or]

theorem two_le_card_distinctIps : 2 ≤ (distinctIps observations).card ↔ HasTwoIps observations := by
  have hmem : ∀ ip, ip ∈ distinctIps observations ↔ ∃ o ∈ observations, o.server.ip = ip := by
    intro ip
    rw [distinctIps, List.mem_toFinset, List.mem_map]
  rw [Nat.succ_le_iff, Finset.one_lt_card]
  constructor
  · rintro ⟨a, ha, b, hb, hne⟩
    obtain ⟨l, hl, rfl⟩ := (hmem a).mp ha
    obtain ⟨r, hr, rfl⟩ := (hmem b).mp hb
    exact ⟨l, hl, r, hr, hne⟩
  · rintro ⟨l, hl, r, hr, hne⟩
    exact ⟨_, (hmem _).mpr ⟨l, hl, rfl⟩, _, (hmem _).mpr ⟨r, hr, rfl⟩, hne⟩

open Classical in
/-- The verdict, without order and without number. -/
noncomputable def verdict (observations : List StunObservation) : MappingBehavior :=
  if ∃ o ∈ observations, o.server.isIpv4 = false ∨ o.mappedAddr.isIpv4 = false then .unknown
  else if HasTwoIps observations ∧
      ∀ l ∈ observations, ∀ r ∈ observations, l.mappedAddr = r.mappedAddr then
    .endpointIndependent
  else if HasConflict observations then .addressAndPortDependent
  else if HasSiblings observations ∧ HasTwoIps observations then .addressDependent
  else .unknown

open Classical in
theorem classifyAll_eq {head : StunObservation} (hhead : head ∈ observations) :
    classifyAll head.mappedAddr observations = verdict observations := by
  have hsame : (∀ o ∈ observations, o.mappedAddr = head.mappedAddr) ↔
      ∀ l ∈ observations, ∀ r ∈ observations, l.mappedAddr = r.mappedAddr :=
    ⟨fun h l hl r hr => (h l hl).trans (h r hr).symm, fun h o ho => h o ho head hhead⟩
  have hbad : (observations.any fun o => !o.server.isIpv4 || !o.mappedAddr.isIpv4) = true ↔
      ∃ o ∈ observations, o.server.isIpv4 = false ∨ o.mappedAddr.isIpv4 = false := by
    simp only [List.any_eq_true, Bool.or_eq_true, Bool.not_eq_true']
  have hone : (2 ≤ (distinctIps observations).card ∧
      (observations.all fun o => o.mappedAddr = head.mappedAddr) = true) ↔
      HasTwoIps observations ∧
        ∀ l ∈ observations, ∀ r ∈ observations, l.mappedAddr = r.mappedAddr := by
    simp only [List.all_eq_true, decide_eq_true_eq, two_le_card_distinctIps, hsame]
  refine ite_congr (propext hbad) (fun _ => rfl) fun _ => ?_
  refine ite_congr (propext hone) (fun _ => rfl) fun hvary => ?_
  rw [comparePairs_eq, Bool.false_or]
  by_cases hconflict : HasConflict observations
  · rw [if_pos hconflict, if_pos hconflict]
  rw [if_neg hconflict, if_neg hconflict]
  by_cases hboth : HasSiblings observations ∧ HasTwoIps observations
  · have hseen : ¬ (decide (HasSiblings observations) = false ∨
        ¬ 2 ≤ (distinctIps observations).card) := by
      rw [decide_eq_true hboth.1, two_le_card_distinctIps]
      exact not_or.mpr ⟨nofun, not_not.mpr hboth.2⟩
    have hother : (observations.any fun o => o.mappedAddr ≠ head.mappedAddr) = true := by
      by_contra hall
      refine hvary ⟨hboth.2, hsame.mp fun o ho => not_not.mp fun hne => hall ?_⟩
      exact List.any_eq_true.mpr ⟨o, ho, decide_eq_true hne⟩
    rw [if_pos hboth]
    exact (if_neg hseen).trans (if_pos hother)
  · have hunseen : decide (HasSiblings observations) = false ∨
        ¬ 2 ≤ (distinctIps observations).card := by
      rw [decide_eq_false_iff_not, two_le_card_distinctIps]
      exact not_and_or.mp hboth
    rw [if_neg hboth]
    exact if_pos hunseen

theorem classifyMapping_eq : classifyMapping observations = verdict observations := by
  match observations with
  | [] => simp [classifyMapping, verdict, HasTwoIps, HasConflict, HasSiblings]
  | [o] => simp [classifyMapping, verdict, HasTwoIps, HasConflict, HasSiblings, Siblings]
  | head :: second :: rest => exact classifyAll_eq (.head _)

/-- Lists of the same observations, in any order and any number, have one verdict. -/
theorem classifyMapping_congr {observations' : List StunObservation}
    (h : ∀ o, o ∈ observations ↔ o ∈ observations') :
    classifyMapping observations = classifyMapping observations' := by
  have htwo : HasTwoIps observations ↔ HasTwoIps observations' := by simp only [HasTwoIps, h]
  have hconflict : HasConflict observations ↔ HasConflict observations' := by
    simp only [HasConflict, h]
  have hsiblings : HasSiblings observations ↔ HasSiblings observations' := by
    simp only [HasSiblings, h]
  rw [classifyMapping_eq, classifyMapping_eq]
  unfold verdict
  congr 1
  · simp only [h]
  congr 1
  · simp only [htwo, h]
  congr 1
  · rw [hconflict]
  congr 1
  rw [hsiblings, htwo]

/-- A mapping that depends on the server address only is not taken for one by port. -/
theorem classifyMapping_of_ip {mapping : IpAddr → SocketAddr}
    (h : ∀ o ∈ observations, o.mappedAddr = mapping o.server.ip) :
    classifyMapping observations ≠ .addressAndPortDependent := by
  have hnone : ¬ HasConflict observations := by
    rintro ⟨l, hl, r, hr, hsib, hne⟩
    rw [h l hl, h r hr, hsib.1] at hne
    exact hne rfl
  rw [classifyMapping_eq, verdict, if_neg hnone]
  split_ifs <;> nofun

/-- A constant mapping is not taken for one by address. -/
theorem classifyMapping_of_const {mapped : SocketAddr}
    (h : ∀ o ∈ observations, o.mappedAddr = mapped) :
    classifyMapping observations ≠ .addressDependent := by
  have hsame : ∀ l ∈ observations, ∀ r ∈ observations, l.mappedAddr = r.mappedAddr :=
    fun l hl r hr => (h l hl).trans (h r hr).symm
  rw [classifyMapping_eq, verdict]
  split
  · nofun
  split
  · nofun
  rename_i hone
  split
  · nofun
  · rw [if_neg fun hboth => hone ⟨hboth.2, hsame⟩]
    nofun

/-! ## The probe -/

/-- `SocketAddr::new`. -/
def socketAddr : IpAddr → UInt16 → SocketAddr
  | .v4 ip, port => .v4 ip port
  | .v6 ip, port => .v6 ip port 0 0

def validOtherAddress (primary other : SocketAddr) : Bool :=
  !other.ip.isUnspecified && other.port != 0 && primary.isIpv4 == other.isIpv4 &&
    other.ip != primary.ip && other.port != primary.port

/-- `probe_rfc5780_with`.  The query is stateful: its answer may depend on how many came
    before. -/
def probeRfc5780With (here primary : SocketAddr)
    (query : Nat → SocketAddr → Except Error StunResult) : Except Error MappingProbe := do
  if !here.isIpv4 || !primary.isIpv4 then
    throw (.stun "RFC 5780 NAT mapping classification requires IPv4")
  let first ← query 0 primary
  let observations := [⟨primary, first.mappedAddr⟩]
  let report (observations : List StunObservation) (mapping : MappingBehavior)
      (evidence : MappingEvidence) : MappingProbe :=
    ⟨observations, first.otherAddress, mapping, evidence⟩
  if first.mappedAddr = here then return report observations .endpointIndependent .rfc5780
  match first.otherAddress with
  | none => return report observations .unknown .insufficientEvidence
  | some other =>
    if !validOtherAddress primary other then
      return report observations .unknown .insufficientEvidence
    let alternate := socketAddr other.ip primary.port
    match query 1 alternate with
    | .error _ => return report observations .unknown .insufficientEvidence
    | .ok second =>
      let observations := observations ++ [⟨alternate, second.mappedAddr⟩]
      if second.mappedAddr = first.mappedAddr then
        return report observations .endpointIndependent .rfc5780
      match query 2 other with
      | .error _ => return report observations .unknown .insufficientEvidence
      | .ok third =>
        return report (observations ++ [⟨other, third.mappedAddr⟩])
          (if third.mappedAddr = second.mappedAddr then .addressDependent
            else .addressAndPortDependent) .rfc5780

/-- The observations of two queries or three, as the probe makes them. -/
theorem classifyMapping_probe {primary other : SocketAddr} {first second : SocketAddr}
    (hvalid : validOtherAddress primary other = true) (hprimary : primary.isIpv4 = true)
    (hfirst : first.isIpv4 = true) (hsecond : second.isIpv4 = true) :
    let two : List StunObservation := [⟨primary, first⟩, ⟨socketAddr other.ip primary.port, second⟩]
    classifyMapping two = (if second = first then .endpointIndependent else .unknown) ∧
      (second ≠ first → ∀ third : SocketAddr, third.isIpv4 = true →
        classifyMapping (two ++ [⟨other, third⟩]) =
          if third = second then .addressDependent else .addressAndPortDependent) := by
  unfold validOtherAddress at hvalid
  simp only [Bool.and_eq_true, bne_iff_ne, ne_eq, beq_iff_eq, hprimary] at hvalid
  obtain ⟨⟨⟨⟨-, -⟩, hother⟩, hip⟩, hport⟩ := hvalid
  cases primary with
  | v6 => cases hprimary
  | v4 ip port =>
  cases other with
  | v6 => cases hother
  | v4 ip' port' =>
  have hip : ip' ≠ ip := fun h => hip (congrArg IpAddr.v4 h)
  have hport : port' ≠ port := hport
  have hv4 : ∀ ip port, (SocketAddr.v4 ip port).isIpv4 = true := fun _ _ => rfl
  refine ⟨?_, fun hne third hthird => ?_⟩
  · rw [classifyMapping_eq]
    by_cases heq : second = first
    · simp [verdict, HasTwoIps, socketAddr, SocketAddr.ip, hv4, heq, hfirst, hip]
    · simp [verdict, HasTwoIps, HasConflict, HasSiblings, Siblings, socketAddr, SocketAddr.ip,
        SocketAddr.port, hv4, heq, hfirst, hsecond, hip, Ne.symm hip]
  · rw [classifyMapping_eq]
    by_cases heq : third = second
    · simp [verdict, HasTwoIps, HasConflict, HasSiblings, Siblings, socketAddr, SocketAddr.ip,
        SocketAddr.port, hv4, heq, hfirst, hsecond, hip, Ne.symm hip, hne, hport]
    · simp [verdict, HasTwoIps, HasConflict, Siblings, socketAddr, SocketAddr.ip,
        SocketAddr.port, hv4, heq, hfirst, hsecond, hthird, hip, Ne.symm hip, hne, hport]

/-- The probe reports what the classifier of lists makes of its observations, unless the first
    one shows no mapping at all; the classifier depends on the set of observations only. -/
theorem mapping_classifiers_agree (here primary : SocketAddr) (hhere : here.isIpv4 = true)
    (hprimary : primary.isIpv4 = true) (query : Nat → SocketAddr → Except Error StunResult)
    (hquery : ∀ n server result, query n server = .ok result → result.mappedAddr.isIpv4 = true) :
    (∀ err, query 0 primary = .error err → probeRfc5780With here primary query = .error err) ∧
      (∀ first, query 0 primary = .ok first →
        ∃ probe, probeRfc5780With here primary query = .ok probe ∧
          (probe.evidence = .rfc5780 ↔ probe.mapping ≠ .unknown) ∧
          (first.mappedAddr = here → probe.mapping = .endpointIndependent ∧
            probe.observations = [⟨primary, first.mappedAddr⟩]) ∧
          (first.mappedAddr ≠ here → probe.mapping = classifyMapping probe.observations)) ∧
      (∀ observations observations' : List StunObservation,
        (∀ o, o ∈ observations ↔ o ∈ observations') →
        classifyMapping observations = classifyMapping observations') ∧
      (∀ (mapping : IpAddr → SocketAddr) (observations : List StunObservation),
        (∀ o ∈ observations, o.mappedAddr = mapping o.server.ip) →
        classifyMapping observations ≠ .addressAndPortDependent) ∧
      ∀ (mapped : SocketAddr) (observations : List StunObservation),
        (∀ o ∈ observations, o.mappedAddr = mapped) →
        classifyMapping observations ≠ .addressDependent := by
  refine ⟨?_, ?_, fun _ _ => classifyMapping_congr, fun _ _ => classifyMapping_of_ip,
    fun _ _ => classifyMapping_of_const⟩
  · intro err herr
    unfold probeRfc5780With
    rw [hhere, hprimary, herr]
    rfl
  · intro first hfirst
    have hfirst4 := hquery 0 primary first hfirst
    unfold probeRfc5780With
    rw [hhere, hprimary, hfirst]
    simp only [Bool.not_true, Bool.or_self, Bool.false_eq_true, if_false, bind, Except.bind]
    by_cases hsame : first.mappedAddr = here
    · rw [if_pos hsame]
      exact ⟨_, rfl, by simp, fun _ => ⟨rfl, rfl⟩, fun hne => absurd hsame hne⟩
    rw [if_neg hsame]
    cases hother : first.otherAddress with
    | none => exact ⟨_, rfl, by simp, fun h => absurd h hsame, fun _ => rfl⟩
    | some other =>
      dsimp only
      cases hvalid : validOtherAddress primary other with
      | false => exact ⟨_, rfl, by simp, fun h => absurd h hsame, fun _ => rfl⟩
      | true =>
        cases hsecond : query 1 (socketAddr other.ip primary.port) with
        | error err => exact ⟨_, rfl, by simp, fun h => absurd h hsame, fun _ => rfl⟩
        | ok second =>
          obtain ⟨htwo, hthree⟩ :=
            classifyMapping_probe hvalid hprimary hfirst4 (hquery _ _ _ hsecond)
          simp only [Bool.not_true, Bool.false_eq_true, if_false]
          by_cases heq : second.mappedAddr = first.mappedAddr
          · rw [if_pos heq] at htwo ⊢
            exact ⟨_, rfl, by simp, fun h => absurd h hsame, fun _ => htwo.symm⟩
          rw [if_neg heq] at htwo ⊢
          cases hthird : query 2 other with
          | error err => exact ⟨_, rfl, by simp, fun h => absurd h hsame, fun _ => htwo.symm⟩
          | ok third =>
            refine ⟨_, rfl, ?_, fun h => absurd h hsame,
              fun _ => (hthree heq _ (hquery _ _ _ hthird)).symm⟩
            simp only [true_iff]
            split
            · nofun
            · nofun

namespace Sample

def v4 (last : UInt8) (port : UInt16) : SocketAddr := .v4 (.four 10 0 0 last) port

/-- A server whose answers all show one mapping. -/
def oneMapping (_ : Nat) (_ : SocketAddr) : Except Error StunResult :=
  .ok ⟨v4 9 4000, some (v4 2 3479)⟩

end Sample

open Sample in
theorem mapping_classifiers_agree_one :
    ∃ probe, probeRfc5780With (v4 7 5000) (v4 1 3478) oneMapping = .ok probe ∧
      probe.mapping = classifyMapping probe.observations := by
  obtain ⟨-, hprobe, -⟩ := mapping_classifiers_agree (v4 7 5000) (v4 1 3478) rfl rfl
    oneMapping fun _ _ result hresult => by
      cases hresult
      rfl
  obtain ⟨probe, hok, -, -, hagree⟩ := hprobe _ rfl
  exact ⟨probe, hok, hagree (by decide)⟩

end P2pFile.Net
