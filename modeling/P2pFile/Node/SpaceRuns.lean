/-
  P2pFile.Node.SpaceRuns

  Reserved space is there.

  For each file system three sums over the live leases matter: what the holders may still
  take (`entitled`), what they have taken and not reported (`unreported`), and the two
  together (`promised`).  What the accounts have reserved is at least what is promised.

  A probe is older than the admission it is used for.  Between the two the version says that
  nobody has reported, so that whatever has gone from the free space has gone from what the
  holders may still take (`Inv.probes`).
-/

import P2pFile.Node.SpaceBudget

namespace P2pFile.Node

open Lib Protocol
open UInt64 (le_iff_toNat_le ofNat toNat toNat_ofNat')

/-! ## The accounts -/

namespace Accounts

variable {a a' : Accounts} {fs : Filesystem}

/-- A checked sum is the sum. -/
theorem foldlM_held {entries : List (Σ _ : UInt64, Filesystem × UInt64)} {start total : UInt64}
    (h : entries.foldlM
      (fun sum r => if r.2.1 = fs then checkedAdd sum r.2.2 else some sum) start = some total) :
    total.toNat = start.toNat +
      (entries.map fun r => if r.2.1 = fs then r.2.2.toNat else 0).sum := by
  induction entries generalizing start with
  | nil =>
    obtain rfl : start = total := by simpa using h
    simp
  | cons r rest ih =>
    rw [List.foldlM_cons, Option.bind_eq_bind, Option.bind_eq_some_iff] at h
    obtain ⟨next, hnext, hrest⟩ := h
    rw [ih hrest, List.map_cons, List.sum_cons]
    split at hnext
    next hfs =>
      rw [if_pos hfs, checkedAdd_toNat hnext]
      omega
    next hfs =>
      cases hnext
      rw [if_neg hfs]
      omega

theorem held_toNat {total : UInt64} (h : a.held fs = some total) :
    total.toNat = a.outstanding fs := by
  have hsum := foldlM_held h
  rw [UInt64.toNat_zero, Nat.zero_add] at hsum
  exact hsum

/-- What an admission checks, and what it leaves. -/
theorem admission_granted {safetyMib : UInt16} {version : UInt64} {space : Probe}
    {bytes : UInt64} (h : a.admission safetyMib version space bytes = .granted a') :
    a.version = version ∧ a.reservations.size < maxReservations ∧
      a.outstanding space.filesystem + bytes.toNat + (safetyBytes safetyMib).toNat ≤
        space.available.toNat ∧
      a' = ⟨a.version + 1, a.nonce + 1,
        a.reservations.insert (a.nonce + 1) (space.filesystem, bytes)⟩ := by
  unfold admission at h
  split at h
  · cases h
  rename_i hvers
  split at h
  · cases h
  rename_i hsize
  split at h
  · cases h
  rename_i held hheld
  split at h
  · cases h
  rename_i required hrequired
  split at h
  · cases h
  rename_i hroom
  obtain ⟨n, hn, hrequired⟩ := Option.bind_eq_some_iff.mp hrequired
  have hle : required.toNat ≤ space.available.toNat := by
    exact UInt64.not_lt.mp hroom
  refine ⟨not_not.mp hvers, Nat.lt_of_not_ge hsize, ?_, (Admission.granted.inj h).symm⟩
  rw [checkedAdd_toNat hrequired, checkedAdd_toNat hn, held_toNat hheld] at hle
  exact hle

/-- What remains reserved is what has not been reported, and the overhead at least. -/
theorem remainder_toNat (remaining bytes : UInt64) : (remainder remaining bytes).toNat =
      max (remaining.toNat - bytes.toNat) taskOverhead.toNat := by
  unfold remainder
  dsimp only
  by_cases hle : remaining ≤ bytes
  · rw [if_pos hle, if_pos UInt64.zero_le]
    rw [le_iff_toNat_le] at hle
    omega
  rw [if_neg hle]
  rw [UInt64.not_le] at hle
  have hsub : (remaining - bytes).toNat = remaining.toNat - bytes.toNat := by
    exact UInt64.toNat_sub_of_le _ _ (UInt64.le_of_lt hle)
  rw [← hsub]
  split
  next hsmall =>
    rw [le_iff_toNat_le] at hsmall
    exact (max_eq_right hsmall).symm
  next hlarge =>
    rw [UInt64.not_le, UInt64.lt_iff_toNat_lt] at hlarge
    exact (max_eq_left (Nat.le_of_lt hlarge)).symm

end Accounts

/-! ## Sums over the leases of a file system -/

/-- The sum of `f` over the leases on a file system. -/
def leaseSum (leases : Handles SpaceLease) (f : SpaceLease → Nat) (fs : Filesystem) : Nat :=
  leases.live.sumBy fun _ l => if l.filesystem = fs then f l else 0

section LeaseSum

variable {leases : Handles SpaceLease} {f : SpaceLease → Nat} {fs : Filesystem} {h : Nat}
  {l : SpaceLease}

theorem leaseSum_issue : leaseSum (leases.issue l) f fs =
      leaseSum leases f fs + if l.filesystem = fs then f l else 0 :=
  Handles.sumBy_issue _

theorem leaseSum_release (hget : leases.get h = some l) : leaseSum leases f fs =
      leaseSum (leases.release h) f fs + if l.filesystem = fs then f l else 0 :=
  Handles.sumBy_release _ hget

theorem leaseSum_modify (hget : leases.get h = some l) {g : SpaceLease → SpaceLease}
    (hfs : (g l).filesystem = l.filesystem) :
    leaseSum (leases.modify h g) f fs + (if l.filesystem = fs then f l else 0) =
      leaseSum leases f fs + if l.filesystem = fs then f (g l) else 0 := by
  have hmodify := Handles.sumBy_modify (fun _ l => if l.filesystem = fs then f l else 0) g hget
  rw [hfs] at hmodify
  exact hmodify

/-- Sums are compared summand by summand. -/
theorem leaseSum_mono {f' : SpaceLease → Nat} (hle : ∀ h l, leases.get h = some l → f l ≤ f' l) :
    leaseSum leases f fs ≤ leaseSum leases f' fs := by
  refine AList.sumBy_le_of_match Eq (fun a b c ha hb => ha.trans hb.symm) ?_
  intro h l hl
  refine ⟨h, l, rfl, hl, ?_⟩
  have hlf := hle h l hl
  split
  · exact hlf
  · exact le_refl 0

end LeaseSum

namespace SpaceWorld

variable (w : SpaceWorld) (fs : Filesystem)

/-- What the holders may still take. -/
def entitled : Nat := leaseSum w.leases (fun l => l.granted - l.consumed) fs

/-- What the holders have taken and not reported. -/
def unreported : Nat := leaseSum w.leases (fun l => l.consumed - l.reported) fs

/-- What the holders have not reported. -/
def promised : Nat := leaseSum w.leases (fun l => l.granted - l.reported) fs

end SpaceWorld

/-! ## Accounts and leases -/

/-- What is reserved for a lease: what its holder has not reported.  The overhead of the task
    stays reserved when it is reported. -/
structure Recorded (l : SpaceLease) (r : UInt64) : Prop where
  covers : l.granted ≤ r.toNat + l.reported
  exact : taskOverhead.toNat + l.reported ≤ l.granted → r.toNat + l.reported = l.granted
  overhead : l.granted < taskOverhead.toNat + l.reported →
    r = taskOverhead ∨ (l.reported = 0 ∧ r.toNat = l.granted)

/-- After a report the entry is what remains. -/
theorem Recorded.report {l : SpaceLease} {r : UInt64} (h : Recorded l r) (bytes : UInt64) :
    Recorded { l with reported := l.reported + bytes.toNat } (Accounts.remainder r bytes) := by
  have hremainder := Accounts.remainder_toNat r bytes
  have hcovers := h.covers
  refine ⟨?_, ?_, ?_⟩
  · show l.granted ≤ (Accounts.remainder r bytes).toNat + (l.reported + bytes.toNat)
    omega
  · intro huntouched
    change taskOverhead.toNat + (l.reported + bytes.toNat) ≤ l.granted at huntouched
    have hexact := h.exact (by omega)
    show (Accounts.remainder r bytes).toNat + (l.reported + bytes.toNat) = l.granted
    omega
  · intro htouched
    change l.granted < taskOverhead.toNat + (l.reported + bytes.toNat) at htouched
    -- no more than the overhead was left, or it is the overhead that is reported now
    have hless : r.toNat ≤ taskOverhead.toNat + bytes.toNat := by
      by_cases hbefore : taskOverhead.toNat + l.reported ≤ l.granted
      · have hexact := h.exact hbefore
        omega
      · rcases h.overhead (by omega) with rfl | ⟨hnone, hgranted⟩
        · exact Nat.le_add_right _ _
        · omega
    left
    apply UInt64.toNat_inj.mp
    omega

/-- The accounts have one entry for each lease. -/
structure Ledger (a : Accounts) (leases : Handles SpaceLease) : Prop where
  few : a.reservations.size ≤ maxReservations
  entry : ∀ h l, leases.get h = some l → ∃ r,
    a.reservations.lookup l.nonce = some (l.filesystem, r) ∧ Recorded l r
  bounds : ∀ h l, leases.get h = some l → l.reported ≤ l.consumed ∧ l.consumed ≤ l.granted
  nonces : ∀ h h' l l', leases.get h = some l → leases.get h' = some l' → l.nonce = l'.nonce →
    h = h'
  owned : ∀ nonce r, a.reservations.lookup nonce = some r →
    ∃ h l, leases.get h = some l ∧ l.nonce = nonce

namespace Ledger

variable {a a' : Accounts} {leases : Handles SpaceLease} {i : Nat} {l : SpaceLease}
  {fs : Filesystem} (h : Ledger a leases)

include h

theorem promised_le : leaseSum leases (fun l => l.granted - l.reported) fs ≤ a.outstanding fs := by
  refine AList.sumBy_le_of_match (fun i nonce => ∃ l, leases.get i = some l ∧ l.nonce = nonce) ?_ ?_
  · rintro i j nonce ⟨l, hl, rfl⟩ ⟨l', hl', hnonce⟩
    exact h.nonces i j l l' hl hl' hnonce.symm
  · intro i l hl
    obtain ⟨r, hr, hrecorded⟩ := h.entry i l hl
    have hcovers := hrecorded.covers
    refine ⟨l.nonce, (l.filesystem, r), ⟨l, hl, rfl⟩, hr, ?_⟩
    dsimp only
    split
    · omega
    · exact le_refl 0

/-- While nobody has touched the overhead, the accounts reserve just what is promised. -/
theorem outstanding_le (hoverhead : ∀ i l, leases.get i = some l → l.filesystem = fs →
      taskOverhead.toNat + l.reported ≤ l.granted) :
    a.outstanding fs ≤ leaseSum leases (fun l => l.granted - l.reported) fs := by
  refine AList.sumBy_le_of_match (fun nonce i => ∃ l, leases.get i = some l ∧ l.nonce = nonce) ?_ ?_
  · rintro nonce nonce' i ⟨l, hl, rfl⟩ ⟨l', hl', rfl⟩
    rw [hl] at hl'
    rw [Option.some.inj hl']
  · intro nonce r hr
    obtain ⟨i, l, hl, rfl⟩ := h.owned nonce r hr
    obtain ⟨r', hr', hrecorded⟩ := h.entry i l hl
    rw [hr] at hr'
    cases hr'
    refine ⟨i, l, ⟨l, hl, rfl⟩, hl, ?_⟩
    dsimp only
    split
    next hfs =>
      have hexact := hrecorded.exact (hoverhead i l hl hfs)
      omega
    · exact le_refl 0

theorem issue {bytes nonce version : UInt64} (hfresh : a.reservations.lookup nonce = none)
    (hroom : a.reservations.size < maxReservations) :
    Ledger ⟨version, nonce, a.reservations.insert nonce (fs, bytes)⟩
      (leases.issue ⟨nonce, 1, fs, bytes.toNat, 0, 0⟩) := by
  have hget : ∀ {i l}, (leases.issue ⟨nonce, 1, fs, bytes.toNat, 0, 0⟩).get i = some l →
      (i = leases.next ∧ l = ⟨nonce, 1, fs, bytes.toNat, 0, 0⟩) ∨
        (leases.get i = some l ∧ l.nonce ≠ nonce) := by
    intro i l hl
    refine (Handles.get_issue_some hl).imp_right fun hold => ⟨hold, ?_⟩
    rintro rfl
    obtain ⟨r, hr, -⟩ := h.entry i l hold
    rw [hfresh] at hr
    cases hr
  refine ⟨?_, ?_, ?_, ?_, ?_⟩
  · have hsize := AList.size_insert_le a.reservations nonce (fs, bytes)
    show (a.reservations.insert nonce (fs, bytes)).size ≤ maxReservations
    omega
  · intro i l hl
    rw [AList.lookup_insert_eq_ite]
    rcases hget hl with ⟨-, rfl⟩ | ⟨hl, hne⟩
    · exact ⟨bytes, if_pos rfl, le_refl _, fun _ => rfl, fun _ => .inr ⟨rfl, rfl⟩⟩
    · rw [if_neg hne]
      exact h.entry i l hl
  · intro i l hl
    rcases hget hl with ⟨-, rfl⟩ | ⟨hl, -⟩
    · exact ⟨le_refl 0, Nat.zero_le _⟩
    · exact h.bounds i l hl
  · intro i i' l l' hl hl' hnonce
    rcases hget hl with ⟨rfl, rfl⟩ | ⟨hl, hne⟩
    · rcases hget hl' with ⟨rfl, -⟩ | ⟨-, hne'⟩
      · rfl
      · exact absurd hnonce.symm hne'
    · rcases hget hl' with ⟨rfl, rfl⟩ | ⟨hl', -⟩
      · exact absurd hnonce hne
      · exact h.nonces i i' l l' hl hl' hnonce
  · intro nonce' r hr
    rcases AList.lookup_insert_some hr with ⟨heq, rfl⟩ | ⟨-, hr⟩
    · exact ⟨leases.next, _, by rw [Handles.get_issue, if_pos rfl], heq.symm⟩
    · obtain ⟨i, l, hl, hnonce⟩ := h.owned nonce' r hr
      exact ⟨i, l, Handles.get_issue_of_get hl, hnonce⟩

variable (hl : leases.get i = some l)

include hl

variable {g : SpaceLease → SpaceLease}

/-- One lease changes, and the entry of its nonce with it. -/
theorem modify (hnonce : (g l).nonce = l.nonce) (hfs : (g l).filesystem = l.filesystem)
    (hbounds : (g l).reported ≤ (g l).consumed ∧ (g l).consumed ≤ (g l).granted) {r : UInt64}
    (hlook : ∀ nonce, a'.reservations.lookup nonce =
      if nonce = l.nonce then some (l.filesystem, r) else a.reservations.lookup nonce)
    (hsize : a'.reservations.size = a.reservations.size)
    (hrecorded : Recorded (g l) r) : Ledger a' (leases.modify i g) := by
  have hget : ∀ {j k}, (leases.modify i g).get j = some k →
      (j = i ∧ k = g l) ∨ (j ≠ i ∧ leases.get j = some k ∧ k.nonce ≠ l.nonce) := by
    intro j k hk
    refine (Handles.get_modify_some hk hl).imp_right fun ⟨hne, hk⟩ => ⟨hne, hk, fun hsame => ?_⟩
    exact hne (h.nonces j i k l hk hl hsame)
  refine ⟨by rw [hsize]; exact h.few, ?_, ?_, ?_, ?_⟩
  · intro j k hk
    rcases hget hk with ⟨-, rfl⟩ | ⟨-, hk, hne⟩
    · exact ⟨r, by rw [hlook, hnonce, if_pos rfl, hfs], hrecorded⟩
    · rw [hlook, if_neg hne]
      exact h.entry j k hk
  · intro j k hk
    rcases hget hk with ⟨-, rfl⟩ | ⟨-, hk, -⟩
    · exact hbounds
    · exact h.bounds j k hk
  · intro j j' k k' hk hk' hsame
    rcases hget hk with ⟨rfl, rfl⟩ | ⟨hne, hk, hother⟩
    · rcases hget hk' with ⟨rfl, -⟩ | ⟨-, -, hother'⟩
      · rfl
      · exact absurd (hsame.symm.trans hnonce) hother'
    · rcases hget hk' with ⟨rfl, rfl⟩ | ⟨-, hk', -⟩
      · exact absurd (hsame.trans hnonce) hother
      · exact h.nonces j j' k k' hk hk' hsame
  · intro nonce r' hr'
    have hold : ∃ j k, leases.get j = some k ∧ k.nonce = nonce := by
      rw [hlook] at hr'
      split at hr'
      next heq =>
        exact ⟨i, l, hl, heq.symm⟩
      · exact h.owned nonce r' hr'
    obtain ⟨j, k, hk, rfl⟩ := hold
    by_cases hj : j = i
    · subst hj
      rw [hl] at hk
      cases hk
      exact ⟨j, g l, by rw [Handles.get_modify, if_pos rfl, hl]; rfl, hnonce⟩
    · exact ⟨j, k, by rw [Handles.get_modify, if_neg hj]; exact hk, rfl⟩

/-- The accounts stay as they are. -/
theorem modify_same (hnonce : (g l).nonce = l.nonce) (hfs : (g l).filesystem = l.filesystem)
    (hgranted : (g l).granted = l.granted) (hreported : (g l).reported = l.reported)
    (hbounds : (g l).reported ≤ (g l).consumed ∧ (g l).consumed ≤ (g l).granted) :
    Ledger a (leases.modify i g) := by
  obtain ⟨r, hr, hcovers, hexact, hoverhead⟩ := h.entry i l hl
  have hrecorded : Recorded (g l) r := by
    refine ⟨?_, ?_, ?_⟩
    · rwa [hgranted, hreported]
    · rwa [hgranted, hreported]
    · rwa [hgranted, hreported]
  refine h.modify hl hnonce hfs hbounds ?_ rfl hrecorded
  intro nonce
  split
  next heq =>
    rw [heq]
    exact hr
  · rfl

theorem release : Ledger (a.drop l.nonce) (leases.release i) := by
  have hget : ∀ {j k}, (leases.release i).get j = some k →
      j ≠ i ∧ leases.get j = some k ∧ k.nonce ≠ l.nonce := by
    intro j k hk
    obtain ⟨hne, hk⟩ := Handles.get_release_some hk
    exact ⟨hne, hk, fun hsame => hne (h.nonces j i k l hk hl hsame)⟩
  refine ⟨le_trans (AList.size_erase_le _ _) h.few, ?_, ?_, ?_, ?_⟩
  · intro j k hk
    obtain ⟨-, hk, hne⟩ := hget hk
    show ∃ r, (a.reservations.erase l.nonce).lookup k.nonce = _ ∧ _
    rw [AList.lookup_erase_eq_ite, if_neg hne]
    exact h.entry j k hk
  · intro j k hk
    exact h.bounds j k (hget hk).2.1
  · intro j j' k k' hk hk' hsame
    exact h.nonces j j' k k' (hget hk).2.1 (hget hk').2.1 hsame
  · intro nonce r hr
    obtain ⟨hne, hr⟩ := AList.lookup_erase_some hr
    obtain ⟨j, k, hk, rfl⟩ := h.owned nonce r hr
    refine ⟨j, k, ?_, rfl⟩
    rw [Handles.get_release, if_neg]
    · exact hk
    · rintro rfl
      rw [hl] at hk
      cases hk
      exact hne rfl

end Ledger

/-! ## The invariant -/

namespace SpaceWorld

variable {w w' : SpaceWorld}

/-- A call knows how often the accounts had changed when it read their version.  If they
    have not changed since, what is gone from the free space that it has probed is gone from
    what the holders may still take. -/
def CallOk (w : SpaceWorld) : CallState → Prop
  | .waiting => True
  | .versioned version seen => version = ofNat seen ∧ seen ≤ w.changes
  | .probed version seen space => version = ofNat seen ∧ seen ≤ w.changes ∧
      (seen = w.changes → space.available.toNat + w.entitled space.filesystem ≤
        w.free space.filesystem + w.promised space.filesystem)

structure Inv (w : SpaceWorld) : Prop where
  ledger : Ledger w.accounts w.leases
  version : w.accounts.version = ofNat w.changes
  room : ∀ fs, w.entitled fs + w.margin fs ≤ w.free fs
  calls : ∀ c call, w.calls.get c = some call → w.CallOk call.state

/-- After a change of the accounts no probe counts any more. -/
theorem CallOk.changed {state : CallState} (h : w.CallOk state)
    (hchanges : w'.changes = w.changes + 1) : w'.CallOk state := by
  cases state with
  | waiting => trivial
  | versioned version seen => exact ⟨h.1, by have := h.2; omega⟩
  | probed version seen space =>
    obtain ⟨hvers, hseen, -⟩ := h
    exact ⟨hvers, by omega, fun heq => by omega⟩

/-- Without one the probes stay good if the free space and what may be taken from it have
    become less by the same. -/
theorem CallOk.same {state : CallState} (h : w.CallOk state) (hchanges : w'.changes = w.changes)
    (hmoves : ∀ fs, w.free fs + w'.entitled fs ≤ w'.free fs + w.entitled fs)
    (hpromised : ∀ fs, w'.promised fs = w.promised fs) : w'.CallOk state := by
  cases state with
  | waiting => trivial
  | versioned version seen =>
    exact ⟨h.1, by rw [hchanges]; exact h.2⟩
  | probed version seen space =>
    obtain ⟨hvers, hseen, hspace⟩ := h
    refine ⟨hvers, by omega, fun heq => ?_⟩
    have hmove := hmoves space.filesystem
    have hsame := hpromised space.filesystem
    omega

variable (h : w.Inv)

include h

/-- Only the calls change. -/
theorem Inv.withCalls {calls : Handles ReserveCall}
    (hcalls : ∀ c call, calls.get c = some call → w.CallOk call.state) : Inv { w with calls } := by
  refine ⟨h.ledger, h.version, h.room, ?_⟩
  intro c call hcall
  exact (hcalls c call hcall).same rfl (fun _ => le_refl _) fun _ => rfl

theorem Inv.begin (bytes : UInt64) : (w.begin bytes).Inv := by
  refine h.withCalls ?_
  intro c call hcall
  rcases Handles.get_issue_some hcall with ⟨-, rfl⟩ | hcall
  · trivial
  · exact h.calls c call hcall

theorem Inv.fail (c : Nat) : (w.fail c).Inv := by
  refine h.withCalls ?_
  intro c' call hcall
  exact h.calls c' call (Handles.get_release_some hcall).2

theorem Inv.modifyCall {c : Nat} {f : ReserveCall → ReserveCall}
    (hf : ∀ call, w.calls.get c = some call → w.CallOk (f call).state) :
    Inv { w with calls := w.calls.modify c f } := by
  refine h.withCalls ?_
  intro c' call hcall
  rw [Handles.get_modify] at hcall
  split at hcall
  next heq =>
    subst heq
    obtain ⟨call', hcall', rfl⟩ := Option.map_eq_some_iff.mp hcall
    exact hf call' hcall'
  · exact h.calls c' call hcall

variable (fs : Filesystem)

/-- The holders have not taken more than they may. -/
theorem Inv.entitled_le : w.entitled fs ≤ w.promised fs := by
  refine leaseSum_mono ?_
  intro i l hl
  obtain ⟨hreported, -⟩ := h.ledger.bounds i l hl
  omega

/-- What may still be taken and what has been taken are what is promised. -/
theorem Inv.promised_eq : w.promised fs = w.entitled fs + w.unreported fs := by
  have hsum : ∀ entries : List (Σ _ : Nat, SpaceLease),
      (∀ e ∈ entries, e.2.reported ≤ e.2.consumed ∧ e.2.consumed ≤ e.2.granted) →
      (entries.map fun e => if e.2.filesystem = fs then e.2.granted - e.2.reported else 0).sum =
        (entries.map fun e => if e.2.filesystem = fs then e.2.granted - e.2.consumed else 0).sum +
        (entries.map fun e =>
          if e.2.filesystem = fs then e.2.consumed - e.2.reported else 0).sum := by
    intro entries hbounds
    induction entries with
    | nil => rfl
    | cons e rest ih =>
      have hrest := ih fun e' he' => hbounds e' (.tail _ he')
      obtain ⟨hreported, hconsumed⟩ := hbounds e (.head _)
      simp only [List.map_cons, List.sum_cons]
      split <;> omega
  refine hsum w.leases.live.entries ?_
  intro e he
  exact h.ledger.bounds e.1 e.2 (AList.lookup_eq_some_iff.mpr he)

omit h

/-! ## The events -/

theorem ofNat_succ (n : Nat) : ofNat n + 1 = ofNat (n + 1) := by
  apply UInt64.toNat_inj.mp
  simp [UInt64.toNat_add, toNat_ofNat']

/-- A version that did not come round says how often the accounts had changed. -/
theorem eq_of_version {seen changes : Nat} (h : ofNat changes = ofNat seen)
    (hle : seen ≤ changes) (hlt : changes < seen + 2 ^ 64) : seen = changes := by
  have hmod := congrArg toNat h
  rw [toNat_ofNat', toNat_ofNat'] at hmod
  omega

variable (h : w.Inv)

include h

/-- **Admission.**  A grant goes against a probe since which the accounts did not change. -/
theorem Inv.attempt {c attempts seen : Nat} {bytes version : UInt64} {space : Probe}
    (hcall : w.calls.get c = some ⟨attempts, bytes, .probed version seen space⟩)
    (hwrap : w.changes < seen + 2 ^ 64)
    (hfresh : w.accounts.reservations.lookup (w.accounts.nonce + 1) = none) :
    (w.attempt c ⟨attempts, bytes, .probed version seen space⟩ version space).Inv := by
  unfold SpaceWorld.attempt
  split
  · split
    · exact h.fail c
    · refine h.modifyCall ?_
      intro call _
      trivial
  · exact h.fail c
  next accounts hgranted =>
    obtain ⟨hvers, hsize, hroom, rfl⟩ := Accounts.admission_granted hgranted
    obtain ⟨hseen, hle, hprobe⟩ := h.calls c _ hcall
    rw [h.version, hseen] at hvers
    have heq := eq_of_version hvers hle hwrap
    have hspace := hprobe heq
    have hpromised : w.promised space.filesystem ≤ w.accounts.outstanding space.filesystem :=
      h.ledger.promised_le
    refine ⟨h.ledger.issue hfresh hsize, ?_, ?_, ?_⟩
    · rw [h.version]
      exact ofNat_succ w.changes
    · intro fs
      show leaseSum (w.leases.issue ⟨w.accounts.nonce + 1, 1, space.filesystem, bytes.toNat, 0, 0⟩)
          (fun l => l.granted - l.consumed) fs +
        (if fs = space.filesystem then (Accounts.safetyBytes w.safetyMib).toNat else w.margin fs)
          ≤ w.free fs
      rw [leaseSum_issue]
      by_cases hfs : fs = space.filesystem
      · subst hfs
        rw [if_pos rfl, if_pos rfl]
        unfold entitled at hspace
        dsimp only at hroom ⊢
        omega
      · rw [if_neg (fun heq => hfs heq.symm), if_neg hfs]
        exact h.room fs
    · intro c' call hcall'
      have hold := (Handles.get_release_some (t := w.calls) hcall').2
      exact (h.calls c' call hold).changed rfl

variable {i : Nat} {l : SpaceLease} (hl : w.leases.get i = some l)

include hl

theorem Inv.consume {n : Nat} (hgranted : l.consumed + n ≤ l.granted)
    (hfree : n ≤ w.free l.filesystem) : (w.consume i l n).Inv := by
  have hentitled : ∀ fs, (w.consume i l n).entitled fs + (if l.filesystem = fs then n else 0) =
      w.entitled fs := by
    intro fs
    have hmodify := @leaseSum_modify w.leases (fun l => l.granted - l.consumed) fs i l hl
      (fun l => { l with consumed := l.consumed + n }) rfl
    change (w.consume i l n).entitled fs + _ = w.entitled fs + _ at hmodify
    dsimp only at hmodify
    split at hmodify
    next hfs =>
      rw [if_pos hfs]
      omega
    next hfs =>
      rw [if_neg hfs]
      omega
  have hpromised : ∀ fs, (w.consume i l n).promised fs = w.promised fs := by
    intro fs
    have hmodify := @leaseSum_modify w.leases (fun l => l.granted - l.reported) fs i l hl
      (fun l => { l with consumed := l.consumed + n }) rfl
    exact Nat.add_right_cancel hmodify
  have hspace : ∀ fs, (w.consume i l n).free fs + (if l.filesystem = fs then n else 0) =
      w.free fs := by
    intro fs
    show (if fs = l.filesystem then w.free l.filesystem - n else w.free fs) + _ = _
    by_cases hfs : fs = l.filesystem
    · subst hfs
      rw [if_pos rfl, if_pos rfl]
      omega
    · rw [if_neg hfs, if_neg (fun heq => hfs heq.symm)]
      omega
  refine ⟨?_, h.version, ?_, ?_⟩
  · have hbounds := h.ledger.bounds i l hl
    refine h.ledger.modify_same hl rfl rfl rfl rfl ⟨?_, hgranted⟩
    show l.reported ≤ l.consumed + n
    omega
  · intro fs
    have hroom := h.room fs
    have hfs := hspace fs
    have hfs' := hentitled fs
    show (w.consume i l n).entitled fs + w.margin fs ≤ (w.consume i l n).free fs
    omega
  · intro c call hcall
    refine (h.calls c call hcall).same rfl ?_ hpromised
    intro fs
    have hfs := hspace fs
    have hfs' := hentitled fs
    omega

theorem Inv.report {bytes : UInt64} (hreported : l.reported + bytes.toNat ≤ l.consumed) :
    (w.report i l bytes).Inv := by
  obtain ⟨r, hr, hrecorded⟩ := h.ledger.entry i l hl
  have hbounds := h.ledger.bounds i l hl
  have hwritten : w.accounts.written l.nonce bytes =
      { w.accounts with
        version := w.accounts.version + 1
        reservations := w.accounts.reservations.insert l.nonce
          (l.filesystem, Accounts.remainder r bytes) } := by
    unfold Accounts.written
    rw [hr]
  have hchanges : (w.report i l bytes).changes = w.changes + 1 := by
    unfold SpaceWorld.report
    rw [hr]
    rfl
  refine ⟨?_, ?_, ?_, ?_⟩
  · show Ledger (w.accounts.written l.nonce bytes) _
    rw [hwritten]
    refine h.ledger.modify hl rfl rfl ⟨hreported, hbounds.2⟩ ?_ ?_ (hrecorded.report bytes)
    · intro nonce
      exact AList.lookup_insert_eq_ite _ _ _ _
    · exact AList.size_insert_of_lookup_some hr _
  · rw [hchanges]
    show (w.accounts.written l.nonce bytes).version = _
    rw [hwritten, ← ofNat_succ, ← h.version]
  · intro fs
    have hmodify := @leaseSum_modify w.leases (fun l => l.granted - l.consumed) fs i l hl
      (fun l => { l with reported := l.reported + bytes.toNat }) rfl
    have hentitled : (w.report i l bytes).entitled fs = w.entitled fs :=
      Nat.add_right_cancel hmodify
    rw [hentitled]
    exact h.room fs
  · intro c call hcall
    exact (h.calls c call hcall).changed hchanges

theorem Inv.dropLease : (w.dropLease i l).Inv := by
  refine ⟨h.ledger.release hl, ?_, ?_, ?_⟩
  · show w.accounts.version + 1 = _
    rw [h.version]
    exact ofNat_succ w.changes
  · intro fs
    have hrelease := @leaseSum_release w.leases (fun l => l.granted - l.consumed) fs i l hl
    have hroom := h.room fs
    unfold entitled at hroom ⊢
    show leaseSum (w.leases.release i) _ fs + w.margin fs ≤ w.free fs
    omega
  · intro c call hcall
    exact (h.calls c call hcall).changed rfl

/-- The number of clones says nothing about space. -/
theorem Inv.clones (g : Nat → Nat) :
    Inv { w with leases := w.leases.modify i fun l => { l with clones := g l.clones } } := by
  have hsum : ∀ (f : SpaceLease → Nat) (fs : Filesystem),
      f { l with clones := g l.clones } = f l →
      leaseSum (w.leases.modify i fun l => { l with clones := g l.clones }) f fs =
        leaseSum w.leases f fs := by
    intro f fs hf
    have hmodify := @leaseSum_modify w.leases f fs i l hl
      (fun l => { l with clones := g l.clones }) rfl
    rw [hf] at hmodify
    exact Nat.add_right_cancel hmodify
  refine ⟨?_, h.version, ?_, ?_⟩
  · exact h.ledger.modify_same hl rfl rfl rfl rfl (h.ledger.bounds i l hl)
  · intro fs
    show leaseSum _ _ fs + w.margin fs ≤ w.free fs
    rw [hsum _ fs rfl]
    exact h.room fs
  · intro c call hcall
    refine (h.calls c call hcall).same rfl ?_ fun fs => hsum _ fs rfl
    intro fs
    show w.free fs + leaseSum _ _ fs ≤ w.free fs + w.entitled fs
    rw [hsum _ fs rfl]
    exact le_refl _

omit hl

theorem Inv.freed (n : Nat) : (w.setFree fs (w.free fs + n)).Inv := by
  have hmore : ∀ fs', w.free fs' ≤ (w.setFree fs (w.free fs + n)).free fs' := by
    intro fs'
    show w.free fs' ≤ if fs' = fs then w.free fs + n else w.free fs'
    split
    next heq =>
      rw [heq]
      omega
    · exact le_refl _
  refine ⟨h.ledger, h.version, ?_, ?_⟩
  · intro fs'
    exact le_trans (h.room fs') (hmore fs')
  · intro c call hcall
    refine (h.calls c call hcall).same rfl ?_ fun _ => rfl
    intro fs'
    exact Nat.add_le_add_right (hmore fs') _

omit h

theorem new_inv (free : Filesystem → Nat) : (new free).Inv := by
  exact ⟨⟨Nat.zero_le _, nofun, nofun, nofun, nofun⟩, rfl, fun _ => Nat.zero_le _, nofun⟩

theorem Inv.step (h : w.Inv) {e : SpaceEvent} (hstep : w.step e = some w') (hwrap : w.NoWrap e) :
    w'.Inv := by
  unfold SpaceWorld.step at hstep
  cases e with
  | reserve bytes =>
    cases hstep
    exact h.begin bytes
  | reserveFile staging target remaining =>
    dsimp only at hstep
    split at hstep
    · cases hstep
      exact h
    · cases hstep
      exact h.begin _
  | readVersion c =>
    dsimp only at hstep
    split at hstep
    · cases hstep
      exact h.modifyCall fun _ _ => ⟨h.version, le_refl _⟩
    · cases hstep
  | probe c fs =>
    dsimp only at hstep
    split at hstep
    next attempts bytes version seen hcall =>
      obtain ⟨hvers, hseen⟩ := h.calls c _ hcall
      split at hstep
      next hsmall =>
        cases hstep
        refine h.modifyCall fun _ _ => ⟨hvers, hseen, fun _ => ?_⟩
        have hle := h.entitled_le fs
        show (ofNat (w.free fs)).toNat + w.entitled fs ≤ w.free fs + w.promised fs
        rw [toNat_ofNat', Nat.mod_eq_of_lt hsmall]
        omega
      · cases hstep
        exact h.fail c
    · cases hstep
  | probeFails c =>
    dsimp only at hstep
    split at hstep
    · cases hstep
      exact h.fail c
    · cases hstep
  | tryAdmit c =>
    dsimp only at hstep
    split at hstep
    next attempts bytes version seen space hcall =>
      cases hstep
      exact h.attempt hcall (hwrap.1 _ _ _ _ _ hcall) hwrap.2
    · cases hstep
  | consume i n =>
    dsimp only at hstep
    split at hstep
    · cases hstep
    rename_i l hl
    split at hstep
    next hallowed =>
      cases hstep
      exact h.consume hl hallowed.1 hallowed.2
    · cases hstep
  | written i bytes =>
    dsimp only at hstep
    split at hstep
    · cases hstep
    rename_i l hl
    split at hstep
    next hreported =>
      cases hstep
      exact h.report hl hreported
    · cases hstep
  | clone i =>
    dsimp only at hstep
    split at hstep
    · cases hstep
    next l hl =>
      cases hstep
      exact h.clones hl (· + 1)
  | drop i =>
    dsimp only at hstep
    split at hstep
    · cases hstep
    rename_i l hl
    split at hstep
    · cases hstep
      exact h.dropLease hl
    · cases hstep
      exact h.clones hl (· - 1)
  | setSafetyMib value =>
    cases hstep
    split
    · exact h
    · exact ⟨h.ledger, h.version, h.room, (h.withCalls h.calls).calls⟩
  | freed fs n =>
    cases hstep
    exact h.freed fs n

end SpaceWorld

theorem space_inv {es : List SpaceEvent} {w : SpaceWorld}
    (h : (spaceMachine.restrict fun w e _ => w.NoWrap e).Run es w) : w.Inv := by
  refine h.inv ?_ ?_
  · rintro w ⟨free, rfl⟩
    exact SpaceWorld.new_inv free
  · rintro w e w' hinv ⟨hstep, hwrap⟩
    exact hinv.step hstep hwrap

/-- **Reserved space is there.**  In every run in which the counters do not come round: on
    each file system the free space, with what the holders have taken and not reported, covers
    what is promised to them and the margin in force at the last admission.  The accounts have
    that much reserved, and no more unless a holder has reported more than all but the overhead
    of its task, which then stays reserved.  There are at most 64 reservations.  A grant goes
    against a probe since which the accounts have not changed.  The last clone of a lease takes
    its whole reservation along. -/
theorem no_oversubscription {es : List SpaceEvent} {w : SpaceWorld}
    (h : (spaceMachine.restrict fun w e _ => w.NoWrap e).Run es w) :
    (∀ fs, w.promised fs + w.margin fs ≤ w.free fs + w.unreported fs) ∧
    (∀ fs, (∀ i l, w.leases.get i = some l → l.filesystem = fs →
        taskOverhead.toNat + l.reported ≤ l.granted) →
      w.accounts.outstanding fs = w.promised fs ∧
        w.accounts.outstanding fs + w.margin fs ≤ w.free fs + w.unreported fs) ∧
    (∀ fs, w.promised fs ≤ w.accounts.outstanding fs) ∧
    (∀ i l, w.leases.get i = some l → ∃ r,
      w.accounts.reservations.lookup l.nonce = some (l.filesystem, r) ∧ Recorded l r) ∧
    w.accounts.reservations.size ≤ maxReservations ∧
    (∀ c attempts bytes version seen space w',
      w.calls.get c = some ⟨attempts, bytes, .probed version seen space⟩ →
      w.NoWrap (.tryAdmit c) → w.step (.tryAdmit c) = some w' → w'.leases.next ≠ w.leases.next →
        seen = w.changes) ∧
    (∀ i l w', w.leases.get i = some l → l.clones ≤ 1 → w.step (.drop i) = some w' →
      w'.leases.get i = none ∧ ∀ nonce, w'.accounts.reservations.lookup nonce =
        if nonce = l.nonce then none else w.accounts.reservations.lookup nonce) := by
  have hinv := space_inv h
  have hpromised : ∀ fs, w.promised fs + w.margin fs ≤ w.free fs + w.unreported fs := by
    intro fs
    have hroom := hinv.room fs
    have hsum := hinv.promised_eq fs
    omega
  have hcovered : ∀ fs, w.promised fs ≤ w.accounts.outstanding fs := by
    intro fs
    exact hinv.ledger.promised_le
  refine ⟨hpromised, ?_, hcovered, hinv.ledger.entry, hinv.ledger.few, ?_, ?_⟩
  · intro fs hoverhead
    have hle : w.accounts.outstanding fs ≤ w.promised fs := hinv.ledger.outstanding_le hoverhead
    have hge := hcovered fs
    have hfs := hpromised fs
    exact ⟨by omega, by omega⟩
  · intro c attempts bytes version seen space w' hcall hwrap hstep hgranted
    unfold SpaceWorld.step at hstep
    dsimp only at hstep
    rw [hcall] at hstep
    cases hstep
    unfold SpaceWorld.attempt at hgranted
    split at hgranted
    · split at hgranted
      · exact absurd rfl hgranted
      · exact absurd rfl hgranted
    · exact absurd rfl hgranted
    next accounts hadmitted =>
      obtain ⟨hversion, -⟩ := Accounts.admission_granted hadmitted
      obtain ⟨hseen, hle, -⟩ := hinv.calls c _ hcall
      rw [hinv.version, hseen] at hversion
      exact SpaceWorld.eq_of_version hversion hle (hwrap.1 _ _ _ _ _ hcall)
  · intro i l w' hl hlast hstep
    unfold SpaceWorld.step at hstep
    dsimp only at hstep
    rw [hl] at hstep
    dsimp only at hstep
    rw [if_pos hlast] at hstep
    cases hstep
    refine ⟨?_, ?_⟩
    · show (w.leases.release i).get i = none
      rw [Handles.get_release, if_pos rfl]
    · intro nonce
      exact AList.lookup_erase_eq_ite _ _ _

namespace SpaceSample

def disk : Filesystem := ⟨1, none⟩

/-- A disk with room for this much and the default margin. -/
def free (bytes : Nat) : Filesystem → Nat := fun _ => bytes + 64 * 1024 * 1024

/-- A reservation is made in one attempt. -/
def reserved (bytes : UInt64) : List SpaceEvent :=
  [.reserve bytes, .readVersion 0, .probe 0 disk, .tryAdmit 0]

/-- Two calls probe at once: the second has to probe again after the first is granted.  The
    first holder writes and reports, the second writes, and a third call has probed between
    the two writes. -/
def contended : List SpaceEvent :=
  [.reserve 196608, .reserve 131072, .readVersion 0, .readVersion 1, .probe 0 disk, .probe 1 disk,
    .tryAdmit 0, .tryAdmit 1, .readVersion 1, .probe 1 disk, .tryAdmit 1, .consume 0 131072,
    .written 0 65536, .reserve 65536, .readVersion 2, .probe 2 disk, .consume 1 65536]

/-- Decides `NoWrap`. -/
def noWrap (w : SpaceWorld) : SpaceEvent → Bool
  | .tryAdmit c =>
    (match w.calls.get c with
      | some ⟨_, _, .probed _ seen _⟩ => w.changes < seen + 2 ^ 64
      | _ => true) &&
    (w.accounts.reservations.lookup (w.accounts.nonce + 1)).isNone
  | _ => true

theorem noWrap_sound {w : SpaceWorld} {e : SpaceEvent} (h : noWrap w e = true) : w.NoWrap e := by
  cases e with
  | tryAdmit c =>
    change (_ && _) = true at h
    rw [Bool.and_eq_true, Option.isNone_iff_eq_none] at h
    refine ⟨?_, h.2⟩
    intro attempts bytes version seen space hcall
    have hseen := h.1
    rw [hcall] at hseen
    simpa using hseen
  | _ => trivial

end SpaceSample

open SpaceSample in
/-- Two tasks have reserved all of the disk but the margin, one of them by a second probe.
    What they have reserved is there, and the third call, which has seen more free space than
    there is now, is refused. -/
theorem no_oversubscription_contended : ∃ w,
      (spaceMachine.restrict fun w e _ => w.NoWrap e).Run contended w ∧
      w.leases.live.size = 2 ∧ w.unreported disk = 131072 ∧
      w.accounts.outstanding disk = w.promised disk ∧ w.promised disk = 262144 ∧
      w.promised disk + w.margin disk ≤ w.free disk + w.unreported disk ∧
      ∃ w', w.step (.tryAdmit 2) = some w' ∧ w'.leases.live.size = 2 := by
  have hsome : (Machine.exec (fun w e => if noWrap w e then w.step e else none)
      (.new (free 327680)) contended).any
      (fun w => decide (w.leases.live.size = 2 ∧ w.unreported disk = 131072 ∧
        w.promised disk = 262144) &&
        w.leases.live.entries.all (fun l => decide (taskOverhead.toNat + l.2.reported ≤
          l.2.granted)) &&
        (w.step (.tryAdmit 2)).any fun w' => w'.leases.live.size = 2) = true := by
    decide +kernel
  obtain ⟨w, hexec, hlast⟩ := (Option.any_eq_true _ _).mp hsome
  rw [Bool.and_eq_true, Bool.and_eq_true, decide_eq_true_eq] at hlast
  obtain ⟨⟨⟨hleases, hunreported, hpromised⟩, hoverhead⟩, hrefused⟩ := hlast
  have hrun : (spaceMachine.restrict fun w e _ => w.NoWrap e).Run contended w :=
    Machine.restrict_run_of_exec (fun _ _ _ _ _ _ hok => noWrap_sound hok) ⟨free 327680, rfl⟩ hexec
  obtain ⟨hroom, hexact, -⟩ := no_oversubscription hrun
  obtain ⟨w', hstep, hnone⟩ := (Option.any_eq_true _ _).mp hrefused
  refine ⟨w, hrun, hleases, hunreported, ?_, hpromised, hroom disk, w', hstep, by simpa using hnone⟩
  refine (hexact disk ?_).1
  intro i l hl _
  have hall := List.all_eq_true.mp hoverhead ⟨i, l⟩ (AList.lookup_eq_some_iff.mp hl)
  exact of_decide_eq_true hall

open SpaceSample in
/-- When a holder reports that it has written all it may, the overhead of its task stays
    reserved: the accounts then have more than the free space and the margin leave. -/
theorem overhead_stays_reserved : ∃ w, spaceMachine.Run
        (reserved 65536 ++ [.consume 0 65536, .written 0 65536]) w ∧
      w.free disk + w.unreported disk < w.accounts.outstanding disk + w.margin disk := by
  have hsome : (Machine.exec SpaceWorld.step (.new (free 65536))
      (reserved 65536 ++ [.consume 0 65536, .written 0 65536])).any
      (fun w => w.free disk + w.unreported disk <
        w.accounts.outstanding disk + w.margin disk) = true := by
    decide +kernel
  obtain ⟨w, hexec, hless⟩ := (Option.any_eq_true _ _).mp hsome
  exact ⟨w, Machine.run_of_exec ⟨free 65536, rfl⟩ hexec, by simpa using hless⟩

end P2pFile.Node
