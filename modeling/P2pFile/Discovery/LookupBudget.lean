/-
  P2pFile.Discovery.LookupBudget

  The budget of lookups by source address (`Registry::take_node_lookup` in
  `src/discovery/signal.rs`).

  A call reads the clock several times: once for each bucket that may be purged, once for
  a bucket that it creates, once to see whether the bucket has expired since, and once for
  a bucket that it resets.  Here each reading is a value of its own.
-/

import P2pFile.Discovery.Registry

namespace P2pFile.Discovery

open Lib
open Relay (Instant Duration)

namespace NodeLookups

/-- A call with its readings of the clock. -/
structure Call where
  ip : IpAddr
  purged : IpAddr → Nat
  created : Nat
  checked : Nat
  reset : Nat

/-- The clock does not go back, in the call and since the calls before it. -/
structure Call.Ordered (c : Call) (last : Nat) : Prop where
  purged_ge : ∀ ip, last ≤ c.purged ip
  created_ge : ∀ ip, c.purged ip ≤ c.created
  checked_ge : c.created ≤ c.checked
  reset_ge : c.checked ≤ c.reset

/-- The buckets that the call does not purge. -/
def retained (c : Call) (buckets : Buckets) : Buckets :=
  buckets.retain fun ip bucket => !bucket.expiredAfter nodeLookupWindow (c.purged ip)

/-- The bucket that the call charges. -/
def current (c : Call) (buckets : Buckets) : LookupWindow :=
  let bucket := ((retained c buckets).lookup c.ip).getD (.new c.created)
  if bucket.expiredAfter nodeLookupWindow c.checked then .new c.reset else bucket

/-- `take_node_lookup` on its table. -/
def take (limit : Nat) (c : Call) (buckets : Buckets) : Buckets × Bool :=
  let retained := retained c buckets
  if (retained.lookup c.ip).isNone && retained.size ≥ maxNodeLookupIps then (retained, false)
  else
    let bucket := current c buckets
    if bucket.requests ≥ limit || bucket.misses ≥ u32Max then (retained.insert c.ip bucket, false)
    else (retained.insert c.ip { bucket with requests := bucket.requests + 1 }, true)

/-- A call during which the clock stands still. -/
def Call.still (ip : IpAddr) (now : Instant) : Call := ⟨ip, fun _ => now, now, now, now⟩

/-- The server takes from this budget, with one reading of the clock for the call. -/
theorem takeNodeLookup_eq (config : SignalServerConfig) (reg : Registry) (ip : IpAddr)
    (now : Instant) : reg.takeNodeLookup config ip now =
      let taken := take config.nodeLookupsPerIp (.still ip now) reg.nodeLookupIps
      ({ reg with nodeLookupIps := taken.1 }, taken.2) := by
  have htake : takeBucket reg.nodeLookupIps config.nodeLookupsPerIp maxNodeLookupIps
      nodeLookupWindow ip now = take config.nodeLookupsPerIp (.still ip now) reg.nodeLookupIps := by
    let buckets := retained (.still ip now) reg.nodeLookupIps
    let bucket := current (.still ip now) reg.nodeLookupIps
    let charged := ((buckets.lookup ip).getD (.new now)).takeInWindow config.nodeLookupsPerIp
      u32Max nodeLookupWindow now
    have hcharged : charged =
        if bucket.requests ≥ config.nodeLookupsPerIp || bucket.misses ≥ u32Max then (bucket, false)
        else ({ bucket with requests := bucket.requests + 1 }, true) := rfl
    refine if_congr Iff.rfl rfl ?_
    show (buckets.insert ip charged.1, charged.2) = _
    rw [hcharged]
    by_cases hfull : (bucket.requests ≥ config.nodeLookupsPerIp || bucket.misses ≥ u32Max) = true
    · rw [if_pos hfull, if_pos hfull]
      rfl
    · rw [if_neg hfull, if_neg hfull]
      rfl
  unfold Registry.takeNodeLookup
  rw [htake]

/-! ## One call -/

variable (w : LookupWindow)

/-- When the life of a bucket begins. -/
def start : Nat := w.started

/-- When it ends. -/
def expiry : Nat := w.started + nodeLookupWindow

theorem start_lt_expiry : start w < expiry w := Nat.lt_add_of_pos_right (by decide)

section

variable {limit : Nat} {c : Call} {buckets : Buckets} {last : Nat}

/-- The clock readings of a call. -/
theorem Call.Ordered.times (hc : c.Ordered last) (ip : IpAddr) :
    last ≤ c.purged ip ∧ c.purged ip ≤ c.created ∧ c.created ≤ c.checked ∧ c.checked ≤ c.reset :=
  ⟨hc.purged_ge ip, hc.created_ge ip, hc.checked_ge, hc.reset_ge⟩

theorem expired_iff {w : LookupWindow} {now : Nat} :
    w.expiredAfter nodeLookupWindow now = true ↔ expiry w ≤ now := by
  have hpos : (0 : Nat) < nodeLookupWindow := by decide
  have hiff : ∀ started window : Nat, 0 < window →
      (window ≤ now - started ↔ started + window ≤ now) := by
    intro started window hpos
    omega
  exact decide_eq_true_iff.trans (hiff w.started nodeLookupWindow hpos)

variable {ip : IpAddr} {bucket : LookupWindow}

theorem lookup_retained : (retained c buckets).lookup ip = some bucket ↔
      buckets.lookup ip = some bucket ∧ c.purged ip < expiry bucket := by
  rw [retained, AList.lookup_retain_eq_some, Bool.not_eq_true', ← Bool.not_eq_true, expired_iff,
    Nat.not_le]

/-- A bucket that is not in the table any more has expired. -/
theorem expired_of_purged (h : buckets.lookup ip = some bucket)
    (hnone : (retained c buckets).lookup ip = none) : expiry bucket ≤ c.purged ip := by
  by_contra hlive
  rw [lookup_retained.mpr ⟨h, by omega⟩] at hnone
  cases hnone

/-- A call charges the bucket of the table or a new one, which then begins after the old one
    has expired. -/
theorem current_cases (buckets : Buckets) (hc : c.Ordered last) :
    buckets.lookup c.ip = some (current c buckets) ∨
      ∃ started : Nat, current c buckets = .new started ∧ last ≤ started ∧ started ≤ c.reset ∧
        ∀ old, buckets.lookup c.ip = some old → expiry old ≤ started ∧ expiry old ≤ c.checked := by
  have htimes := hc.times c.ip
  unfold current
  cases hlookup : (retained c buckets).lookup c.ip with
  | some bucket =>
    obtain ⟨hbefore, hlive⟩ := lookup_retained.mp hlookup
    simp only [Option.getD_some]
    split
    · -- It has expired between the two readings.
      rename_i hexpired
      have hexpired := expired_iff.mp hexpired
      refine .inr ⟨c.reset, rfl, by omega, Nat.le_refl _, fun old hold => ?_⟩
      obtain rfl := Option.some.inj (hbefore.symm.trans hold)
      omega
    · exact .inl hbefore
  | none =>
    simp only [Option.getD_none]
    right
    split
    · refine ⟨c.reset, rfl, by omega, Nat.le_refl _, fun old hold => ?_⟩
      have hgone := expired_of_purged hold hlookup
      omega
    · refine ⟨c.created, rfl, by omega, by omega, fun old hold => ?_⟩
      have hgone := expired_of_purged hold hlookup
      omega

/-- A call is refused for a full table, or charges its bucket. -/
theorem take_cases (limit : Nat) (c : Call) (buckets : Buckets) :
    ((retained c buckets).lookup c.ip = none ∧ take limit c buckets = (retained c buckets, false)) ∨
      (((retained c buckets).lookup c.ip ≠ none ∨ (retained c buckets).size < maxNodeLookupIps) ∧
        (((limit ≤ (current c buckets).requests ∨ u32Max ≤ (current c buckets).misses) ∧
            take limit c buckets = ((retained c buckets).insert c.ip (current c buckets), false)) ∨
          ((current c buckets).requests < limit ∧
            take limit c buckets = ((retained c buckets).insert c.ip { current c buckets with
              requests := (current c buckets).requests + 1 }, true)))) := by
  unfold take
  simp only
  split
  next hfull =>
    rw [Bool.and_eq_true, Option.isNone_iff_eq_none] at hfull
    exact .inl ⟨hfull.1, rfl⟩
  rename_i hroom
  rw [Bool.and_eq_true, not_and_or, Option.isNone_iff_eq_none, decide_eq_true_iff,
    Nat.not_le] at hroom
  refine .inr ⟨hroom, ?_⟩
  split
  next hfull =>
    rw [Bool.or_eq_true, decide_eq_true_iff, decide_eq_true_iff] at hfull
    exact .inl ⟨hfull, rfl⟩
  next hleft =>
    rw [Bool.or_eq_true, decide_eq_true_iff, decide_eq_true_iff, not_or] at hleft
    exact .inr ⟨Nat.lt_of_not_le hleft.1, rfl⟩

/-- A call of another address leaves a bucket that has not expired. -/
theorem lookup_take_of_ne (hne : c.ip ≠ ip) (h : buckets.lookup ip = some bucket)
    (hlive : c.purged ip < expiry bucket) : (take limit c buckets).1.lookup ip = some bucket := by
  have hkept := lookup_retained.mpr ⟨h, hlive⟩
  obtain ⟨-, heq⟩ | ⟨-, ⟨-, heq⟩ | ⟨-, heq⟩⟩ := take_cases limit c buckets
  · rw [heq]
    exact hkept
  · rw [heq, AList.lookup_insert_ne (Ne.symm hne)]
    exact hkept
  · rw [heq, AList.lookup_insert_ne (Ne.symm hne)]
    exact hkept

end

/-! ## Runs -/

/-- An accepted call: its address, the start of the bucket that it was charged to, and the
    reading at which that was decided. -/
structure Accepted where
  ip : IpAddr
  started : Nat
  time : Nat

/-- The table with the accepted calls so far. -/
structure Ledger where
  buckets : Buckets
  accepted : List Accepted

namespace Ledger

def call (limit : Nat) (l : Ledger) (c : Call) : Ledger :=
  let (buckets, allowed) := take limit c l.buckets
  ⟨buckets, if allowed then l.accepted ++ [⟨c.ip, start (current c l.buckets), c.checked⟩]
    else l.accepted⟩

def run (limit : Nat) (calls : List Call) : Ledger := calls.foldl (call limit) ⟨∅, []⟩

end Ledger

/-- The accepted calls of one life of a bucket. -/
def inLife (accepted : List Accepted) (ip : IpAddr) (started : Nat) : Nat :=
  accepted.countP fun a => decide (a.ip = ip ∧ a.started = started)

/-- The calls of a run come one after the other. -/
def Ordered : Nat → List Call → Prop
  | _, [] => True
  | last, c :: calls => c.Ordered last ∧ Ordered c.reset calls

/-- Two accepted calls of one address are of one life, or the earlier life had expired and the
    earlier call was over when the later life began. -/
def Apart (a b : Accepted) : Prop :=
  a.ip = b.ip → a.started = b.started ∨ (a.time ≤ b.started ∧ a.started + nodeLookupWindow ≤ b.time)

/-- What the calls up to `last` keep. -/
structure Inv (limit last : Nat) (l : Ledger) : Prop where
  size_le : l.buckets.size ≤ maxNodeLookupIps
  time_le : ∀ a ∈ l.accepted, a.time ≤ last
  life_le : ∀ ip started, inLife l.accepted ip started ≤ limit
  apart : l.accepted.Pairwise Apart
  /-- The bucket of the table counts the accepted calls of its life. -/
  bucket : ∀ ip w, l.buckets.lookup ip = some w → start w ≤ last ∧ w.misses = 0 ∧
    w.requests = inLife l.accepted ip (start w) ∧ w.requests ≤ limit ∧
    ∀ a ∈ l.accepted, a.ip = ip → a.started = start w ∨
      (a.time ≤ start w ∧ a.started + nodeLookupWindow ≤ start w)
  /-- Without a bucket every life has expired. -/
  gone : ∀ ip, l.buckets.lookup ip = none → ∀ a ∈ l.accepted, a.ip = ip →
    a.started + nodeLookupWindow ≤ last

section

variable {limit last : Nat} {c : Call} {l : Ledger}

theorem Call.Ordered.le_reset (hc : c.Ordered last) : last ≤ c.reset := by
  have htimes := hc.times c.ip
  omega

/-- The purge keeps the invariant at the end of the call. -/
theorem Inv.retained (h : Inv limit last l) (hc : c.Ordered last) :
    Inv limit c.reset { l with buckets := retained c l.buckets } where
  size_le := Nat.le_trans (AList.size_retain_le _ _) h.size_le
  time_le a ha := Nat.le_trans (h.time_le a ha) hc.le_reset
  life_le := h.life_le
  apart := h.apart
  bucket ip w hw := by
    obtain ⟨hstart, hrest⟩ := h.bucket ip w (lookup_retained.mp hw).1
    exact ⟨Nat.le_trans hstart hc.le_reset, hrest⟩
  gone ip hnone a ha hip := by
    have hend := hc.le_reset
    have htimes := hc.times ip
    cases hw : l.buckets.lookup ip with
    | none => exact Nat.le_trans (h.gone ip hw a ha hip) hend
    | some w =>
      have hexpired := expired_of_purged hw hnone
      have hlife := (h.bucket ip w hw).2.2.2.2 a ha hip
      have hlt := start_lt_expiry w
      rcases hlife with heq | ⟨-, hle⟩
      · have hexpiry : a.started + nodeLookupWindow = expiry w := by rw [heq]; rfl
        omega
      · exact Nat.le_trans hle (by omega)

/-- The bucket of the call against the calls so far. -/
theorem Inv.current (h : Inv limit last l) (hc : c.Ordered last) :
    start (current c l.buckets) ≤ c.reset ∧ (current c l.buckets).misses = 0 ∧
      (current c l.buckets).requests = inLife l.accepted c.ip (start (current c l.buckets)) ∧
      (current c l.buckets).requests ≤ limit ∧
      ∀ a ∈ l.accepted, a.ip = c.ip → a.started = start (current c l.buckets) ∨
        (a.time ≤ start (current c l.buckets) ∧
          a.started + nodeLookupWindow ≤ start (current c l.buckets) ∧
          a.started + nodeLookupWindow ≤ c.checked) := by
  have htimes := hc.times c.ip
  rcases current_cases l.buckets hc with hkept | ⟨started, hnew, hge, hle, hold⟩
  · obtain ⟨hstart, hmisses, hcount, hlimit, hlives⟩ := h.bucket _ _ hkept
    refine ⟨by omega, hmisses, hcount, hlimit, fun a ha hip => ?_⟩
    rcases hlives a ha hip with heq | ⟨htime, hlife⟩
    · exact .inl heq
    · exact .inr ⟨htime, hlife, Nat.le_trans hlife (by omega)⟩
  · -- Every life so far has expired before the new one begins.
    have hall : ∀ a ∈ l.accepted, a.ip = c.ip →
        a.started + nodeLookupWindow ≤ started ∧ a.started + nodeLookupWindow ≤ c.checked := by
      intro a ha hip
      cases hw : l.buckets.lookup c.ip with
      | none =>
        have hgone := h.gone _ hw a ha hip
        exact ⟨Nat.le_trans hgone hge, Nat.le_trans hgone (by omega)⟩
      | some w =>
        obtain ⟨hstarted, hchecked⟩ := hold w hw
        have hlt := start_lt_expiry w
        rcases (h.bucket _ w hw).2.2.2.2 a ha hip with heq | ⟨-, hlife⟩
        · rw [heq]
          exact ⟨hstarted, hchecked⟩
        · exact ⟨Nat.le_trans hlife (by omega), Nat.le_trans hlife (by omega)⟩
    have hzero : inLife l.accepted c.ip started = 0 := by
      apply List.countP_eq_zero.mpr
      intro a ha heq
      obtain ⟨hip, hstarted⟩ := of_decide_eq_true heq
      have hlife := (hall a ha hip).1
      have hpos : (0 : Nat) < nodeLookupWindow := by decide
      rw [hstarted] at hlife
      exact absurd hlife (Nat.not_le.mpr (Nat.lt_add_of_pos_right hpos))
    rw [hnew]
    refine ⟨hle, rfl, hzero.symm, Nat.zero_le _, fun a ha hip => .inr ⟨?_, hall a ha hip⟩⟩
    exact Nat.le_trans (h.time_le a ha) hge

theorem inLife_snoc (accepted : List Accepted) (a : Accepted) (ip : IpAddr) (started : Nat) :
    inLife (accepted ++ [a]) ip started =
      inLife accepted ip started + if a.ip = ip ∧ a.started = started then 1 else 0 := by
  unfold inLife
  rw [List.countP_append, List.countP_singleton]
  simp only [decide_eq_true_eq]

theorem size_insert_current {buckets : Buckets} (w : LookupWindow)
    (hsize : buckets.size ≤ maxNodeLookupIps)
    (hroom : buckets.lookup c.ip ≠ none ∨ buckets.size < maxNodeLookupIps) :
    (buckets.insert c.ip w).size ≤ maxNodeLookupIps := by
  cases hold : buckets.lookup c.ip with
  | none =>
    have hle := AList.size_insert_le buckets c.ip w
    have hlt := hroom.resolve_left (not_not.mpr hold)
    omega
  | some old =>
    rw [AList.size_insert_of_lookup_some hold]
    exact hsize

theorem Inv.call (h : Inv limit last l) (hc : c.Ordered last) :
    Inv limit c.reset (l.call limit c) := by
  have hkept := h.retained hc
  obtain ⟨hstart, hmisses, hcount, hlimit, hlives⟩ := h.current hc
  obtain ⟨-, heq⟩ | ⟨hroom, ⟨-, heq⟩ | ⟨hless, heq⟩⟩ := take_cases limit c l.buckets
  · unfold Ledger.call
    rw [heq]
    exact hkept
  · unfold Ledger.call
    rw [heq]
    refine ⟨size_insert_current _ hkept.size_le hroom, hkept.time_le, h.life_le, h.apart, ?_, ?_⟩
    · intro ip w hw
      rcases AList.lookup_insert_some hw with ⟨hip, rfl⟩ | ⟨-, hw⟩
      · refine ⟨hstart, hmisses, hip ▸ hcount, hlimit, fun a ha haip => ?_⟩
        exact (hlives a ha (haip.trans hip)).imp_right fun hlife => ⟨hlife.1, hlife.2.1⟩
      · exact hkept.bucket ip w hw
    · intro ip hnone
      rw [AList.lookup_insert_eq_ite] at hnone
      split at hnone
      · cases hnone
      · exact hkept.gone ip hnone
  · -- The new call is one more of the life of its bucket.
    have htime := hc.reset_ge
    unfold Ledger.call
    rw [heq]
    refine ⟨size_insert_current _ hkept.size_le hroom, ?_, ?_, ?_, ?_, ?_⟩
    · intro a ha
      rcases List.mem_append.mp ha with ha | ha
      · exact hkept.time_le a ha
      · rw [List.mem_singleton.mp ha]
        exact htime
    · intro ip started
      show inLife (l.accepted ++ [_]) ip started ≤ limit
      rw [inLife_snoc]
      split
      next hsame =>
        obtain ⟨rfl, rfl⟩ := hsame
        show inLife l.accepted c.ip (start (NodeLookups.current c l.buckets)) + 1 ≤ limit
        omega
      · exact h.life_le ip started
    · refine List.pairwise_append.mpr ⟨h.apart, List.pairwise_singleton _ _, fun a ha b hb => ?_⟩
      obtain rfl := List.mem_singleton.mp hb
      intro hip
      exact (hlives a ha hip).imp_right fun hlife => ⟨hlife.1, hlife.2.2⟩
    · intro ip w hw
      rw [AList.lookup_insert_eq_ite] at hw
      show _ ∧ _ ∧ _ = inLife (l.accepted ++ [_]) ip (start w) ∧ _
      rw [inLife_snoc]
      split at hw
      next hip =>
        subst hip
        cases hw
        refine ⟨hstart, hmisses, ?_, hless, fun a ha haip => ?_⟩
        · rw [if_pos ⟨rfl, rfl⟩]
          exact congrArg (· + 1) hcount
        · rcases List.mem_append.mp ha with ha | ha
          · exact (hlives a ha haip).imp_right fun hlife => ⟨hlife.1, hlife.2.1⟩
          · rw [List.mem_singleton.mp ha]
            exact .inl rfl
      next hip =>
        obtain ⟨hstart', hmisses', hcount', hlimit', hlives'⟩ := hkept.bucket ip w hw
        rw [if_neg fun hsame => hip hsame.1.symm]
        refine ⟨hstart', hmisses', hcount', hlimit', fun a ha haip => ?_⟩
        rcases List.mem_append.mp ha with ha | ha
        · exact hlives' a ha haip
        · rw [List.mem_singleton.mp ha] at haip
          exact absurd haip.symm hip
    · intro ip hnone a ha haip
      rw [AList.lookup_insert_eq_ite] at hnone
      split at hnone
      · cases hnone
      rename_i hip
      rcases List.mem_append.mp ha with ha | ha
      · exact hkept.gone ip hnone a ha haip
      · rw [List.mem_singleton.mp ha] at haip
        exact absurd haip.symm hip

end

variable {accepted : List Accepted}

/-- In an interval shorter than the window, the calls of one address are of two lives. -/
theorem two_lives (ip : IpAddr) {low high : Nat} (hshort : high < low + nodeLookupWindow)
    (hapart : accepted.Pairwise Apart)
    (hin : ∀ a ∈ accepted, a.ip = ip ∧ low ≤ a.time ∧ a.time ≤ high) :
    ∃ s₁ s₂, ∀ a ∈ accepted, a.started = s₁ ∨ a.started = s₂ := by
  cases accepted with
  | nil => exact ⟨0, 0, nofun⟩
  | cons first rest =>
    obtain ⟨hfirst, hrest⟩ := List.pairwise_cons.mp hapart
    obtain ⟨hip, hlow, -⟩ := hin first (.head _)
    cases hothers : rest.filter fun a => decide (a.started ≠ first.started) with
    | nil =>
      refine ⟨first.started, 0, fun a ha => .inl ?_⟩
      rcases List.mem_cons.mp ha with rfl | ha
      · rfl
      · simpa using List.filter_eq_nil_iff.mp hothers a ha
    | cons second others =>
      have hmem : ∀ a ∈ second :: others, a ∈ rest ∧ a.started ≠ first.started := by
        intro a ha
        rw [← hothers] at ha
        simpa using ha
      have hpair := List.pairwise_cons.mp (hothers ▸ hrest.filter _)
      obtain ⟨hsecond, hne⟩ := hmem second (.head _)
      have hbegin := ((hfirst second hsecond)
        (hip.trans (hin second (.tail _ hsecond)).1.symm)).resolve_left (Ne.symm hne)
      refine ⟨first.started, second.started, fun a ha => ?_⟩
      by_cases heq : a.started = first.started
      · exact .inl heq
      right
      have ha : a ∈ second :: others := by
        rw [← hothers, List.mem_filter]
        rcases List.mem_cons.mp ha with rfl | ha
        · exact absurd rfl heq
        · exact ⟨ha, decide_eq_true heq⟩
      rcases List.mem_cons.mp ha with rfl | ha'
      · rfl
      -- A third life would begin a window after the second.
      obtain ⟨haip, -, hhigh⟩ := hin a (.tail _ (hmem a ha).1)
      by_contra hthird
      have hlater := ((hpair.1 a ha') ((hin second (.tail _ hsecond)).1.trans
        haip.symm)).resolve_left (Ne.symm hthird)
      have hspan : low + nodeLookupWindow ≤ a.time :=
        Nat.le_trans (Nat.add_le_add_right (Nat.le_trans hlow hbegin.1) _) hlater.2
      exact absurd (Nat.lt_of_le_of_lt hhigh hshort) (Nat.not_lt.mpr hspan)

theorem length_le_of_two {p q : Accepted → Bool} (h : ∀ a ∈ accepted, p a = true ∨ q a = true) :
    accepted.length ≤ accepted.countP p + accepted.countP q := by
  induction accepted with
  | nil => exact Nat.le_refl _
  | cons a accepted ih =>
    have hrest := ih fun b hb => h b (.tail _ hb)
    rw [List.length_cons, List.countP_cons, List.countP_cons]
    rcases h a (.head _) with ha | ha
    · rw [if_pos ha]
      omega
    · rw [if_pos ha]
      omega

variable {ip : IpAddr} {l : Ledger}

theorem Inv.accepted_le {limit last : Nat} (h : Inv limit last l) {low high : Nat}
    (hshort : high < low + nodeLookupWindow) :
    l.accepted.countP (fun a => decide (a.ip = ip ∧ low ≤ a.time ∧ a.time ≤ high)) ≤ 2 * limit := by
  rw [List.countP_eq_length_filter]
  generalize hinside : (l.accepted.filter fun a =>
    decide (a.ip = ip ∧ low ≤ a.time ∧ a.time ≤ high)) = inside
  have hin : ∀ a ∈ inside, a.ip = ip ∧ low ≤ a.time ∧ a.time ≤ high := by
    intro a ha
    rw [← hinside] at ha
    exact of_decide_eq_true (List.mem_filter.mp ha).2
  obtain ⟨s₁, s₂, hlives⟩ := two_lives ip hshort (hinside ▸ h.apart.filter _) hin
  have hcount : ∀ started, inLife inside ip started ≤ limit := by
    intro started
    rw [← hinside]
    exact Nat.le_trans (List.Sublist.countP_le List.filter_sublist) (h.life_le ip started)
  have hboth : inside.length ≤ inLife inside ip s₁ + inLife inside ip s₂ := by
    apply length_le_of_two
    intro a ha
    exact (hlives a ha).imp (fun hs => decide_eq_true ⟨(hin a ha).1, hs⟩)
      fun hs => decide_eq_true ⟨(hin a ha).1, hs⟩
  have h₁ := hcount s₁
  have h₂ := hcount s₂
  omega

variable {calls : List Call}

theorem inv_run {limit last : Nat} (h : Inv limit last l) (hcalls : Ordered last calls) :
    ∃ last, Inv limit last (calls.foldl (Ledger.call limit) l) := by
  induction calls generalizing last l with
  | nil => exact ⟨last, h⟩
  | cons c calls ih => exact ih (h.call hcalls.1) hcalls.2

/-- Calls of other addresses leave a bucket as long as it has not expired. -/
theorem lookup_run_of_ne {limit : Nat} {bucket : LookupWindow}
    (h : l.buckets.lookup ip = some bucket)
    (hcalls : ∀ c ∈ calls, c.ip ≠ ip ∧ c.purged ip < expiry bucket) :
    (calls.foldl (Ledger.call limit) l).buckets.lookup ip = some bucket := by
  induction calls generalizing l with
  | nil => exact h
  | cons c calls ih =>
    obtain ⟨hne, hlive⟩ := hcalls c (.head _)
    exact ih (lookup_take_of_ne hne h hlive) fun d hd => hcalls d (.tail _ hd)

end NodeLookups

open NodeLookups in
/-- After any calls whose clock readings do not go back: the accepted calls of one life of a
    bucket are within the limit, those of one address in an interval shorter than the window
    within twice the limit, and the table is bounded.  A call whose bucket is live is
    answered by the bucket alone, and calls of other addresses leave a live bucket as it
    is. -/
theorem node_lookups_limited (limit first : Nat) (calls : List Call)
    (hcalls : Ordered first calls) :
    (∀ ip started, inLife (Ledger.run limit calls).accepted ip started ≤ limit) ∧
      (∀ ip low high, high < low + nodeLookupWindow →
        (Ledger.run limit calls).accepted.countP
          (fun a => decide (a.ip = ip ∧ low ≤ a.time ∧ a.time ≤ high)) ≤ 2 * limit) ∧
      (Ledger.run limit calls).buckets.size ≤ 1024 ∧
      ∀ ip bucket, (Ledger.run limit calls).buckets.lookup ip = some bucket →
        (∀ c : Call, c.ip = ip → c.purged ip < expiry bucket →
          (take limit c (Ledger.run limit calls).buckets).2 =
            decide ((if expiry bucket ≤ c.checked then 0 else bucket.requests) < limit)) ∧
        ∀ others : List Call, (∀ c ∈ others, c.ip ≠ ip ∧ c.purged ip < expiry bucket) →
          (others.foldl (Ledger.call limit) (Ledger.run limit calls)).buckets.lookup ip =
            some bucket := by
  have hinit : Inv limit first ⟨∅, []⟩ :=
    ⟨Nat.zero_le _, nofun, fun _ _ => Nat.zero_le _, .nil, nofun, nofun⟩
  obtain ⟨last, h⟩ := inv_run hinit hcalls
  refine ⟨h.life_le, fun ip low high hshort => h.accepted_le hshort, h.size_le, ?_⟩
  intro ip bucket hbucket
  refine ⟨fun c hip hlive => ?_, fun others hothers => lookup_run_of_ne hbucket hothers⟩
  subst hip
  have hmisses : bucket.misses = 0 := (h.bucket _ _ hbucket).2.1
  have hlookup := lookup_retained.mpr ⟨hbucket, hlive⟩
  have hcurrent : current c (Ledger.run limit calls).buckets =
      if expiry bucket ≤ c.checked then .new c.reset else bucket := by
    unfold current
    rw [hlookup, Option.getD_some]
    simp only [expired_iff]
  have hrequests : (current c (Ledger.run limit calls).buckets).requests =
      if expiry bucket ≤ c.checked then 0 else bucket.requests := by
    rw [hcurrent]
    split <;> rfl
  have hzero : (current c (Ledger.run limit calls).buckets).misses = 0 := by
    rw [hcurrent]
    split
    · rfl
    · exact hmisses
  obtain ⟨hnone, -⟩ | ⟨-, ⟨hfull, heq⟩ | ⟨hless, heq⟩⟩ :=
    take_cases limit c (Ledger.run limit calls).buckets
  · rw [hlookup] at hnone
    cases hnone
  · rw [heq, ← hrequests]
    have hmax : 0 < u32Max := by decide
    exact (decide_eq_false (by omega)).symm
  · rw [heq, ← hrequests]
    exact (decide_eq_true hless).symm

namespace Sample

def ip : IpAddr := .v4 (Bytes.fill 4 1)

/-- A call of the address at one moment. -/
def lookupAt (now : Nat) : NodeLookups.Call := ⟨ip, fun _ => now, now, now, now⟩

theorem ordered_lookupAt {last now : Nat} (h : last ≤ now) : (lookupAt now).Ordered last :=
  ⟨fun _ => h, fun _ => Nat.le_refl _, Nat.le_refl _, Nat.le_refl _⟩

end Sample

open NodeLookups in
/-- With a limit of one the second call of a life is refused. -/
theorem node_lookups_limited_two : (Ledger.run 1 [Sample.lookupAt 5]).accepted.countP
        (fun a => decide (a.ip = Sample.ip ∧ 5 ≤ a.time ∧ a.time ≤ 9)) ≤ 2 ∧
      (take 1 (Sample.lookupAt 7) (Ledger.run 1 [Sample.lookupAt 5]).buckets).2 = false := by
  obtain ⟨-, haccepted, -, hbucket⟩ := node_lookups_limited 1 0 [Sample.lookupAt 5]
    ⟨Sample.ordered_lookupAt (by decide), trivial⟩
  exact ⟨haccepted Sample.ip 5 9 (by decide),
    (hbucket Sample.ip ⟨5, 1, 0⟩ rfl).1 (Sample.lookupAt 7) rfl (by decide)⟩

end P2pFile.Discovery
