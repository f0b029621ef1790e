/-
  P2pFile.Node.SpaceBudget

  Disk space for the files to be received (`src/node/core/space_budget.rs`).

  `reserve_with_probe` reads the version of the accounts, probes the free space without the
  lock, and admits the reservation if the version is still the same, in four attempts.  The
  machine has one event for each of the three, so that other calls come between them.

  A lease records what the code does not: the bytes that were granted to it, those that its
  holder has put on disk, and those that it has reported with `written`.  `changes` counts
  the changes of the accounts; the code has it modulo 2^64, as the version.  `margin` is the
  safety margin that was in force at the last admission.
-/

import P2pFile.Lib.Handles
import P2pFile.Lib.Machine
import P2pFile.Protocol.Manifest

namespace P2pFile.Node

open Lib Protocol

def taskOverhead : UInt64 := 64 * 1024

def maxReservations : Nat := 64

def maxSafetyMib : UInt16 := 4096

def defaultSafetyMib : UInt16 := 64

/-- `Filesystem`; `mount` is its `namespace`. -/
structure Filesystem where
  volume : UInt64
  mount : Option String
  deriving DecidableEq

structure Probe where
  filesystem : Filesystem
  available : UInt64

inductive SpaceError where
  | insufficient (required available : UInt64)
  | unavailable
  | busy
  | crossFilesystem

structure Accounts where
  version : UInt64
  nonce : UInt64
  reservations : FinMap UInt64 (Filesystem × UInt64)

/-- What comes of one attempt to reserve. -/
inductive Admission where
  | retry
  | refused (err : SpaceError)
  | granted (accounts : Accounts)

namespace Accounts

variable (a : Accounts)

/-- The sum of the reservations on a file system, if it is a `u64`. -/
def held (fs : Filesystem) : Option UInt64 :=
  a.reservations.entries.foldlM
    (fun sum r => if r.2.1 = fs then checkedAdd sum r.2.2 else some sum) 0

def safetyBytes (mib : UInt16) : UInt64 := mib.toUInt64 * 1024 * 1024

/-- The second section of `reserve_with_probe`. -/
def admission (safetyMib : UInt16) (version : UInt64) (space : Probe) (bytes : UInt64) :
    Admission :=
  if a.version ≠ version then .retry
  else if a.reservations.size ≥ maxReservations then .refused .busy
  else
    match a.held space.filesystem with
    | none => .refused .unavailable
    | some held =>
      match (checkedAdd held bytes).bind fun n => checkedAdd n (safetyBytes safetyMib) with
      | none => .refused .unavailable
      | some required =>
        if required > space.available then .refused (.insufficient required space.available)
        else
          .granted
            { version := a.version + 1
              nonce := a.nonce + 1
              reservations := a.reservations.insert (a.nonce + 1) (space.filesystem, bytes) }

/-- What remains reserved after a write: the overhead of the task at least. -/
def remainder (remaining bytes : UInt64) : UInt64 :=
  let left := if remaining ≤ bytes then 0 else remaining - bytes
  if left ≤ taskOverhead then taskOverhead else left

/-- `Reservation::written`. -/
def written (nonce bytes : UInt64) : Accounts :=
  match a.reservations.lookup nonce with
  | none => a
  | some (fs, remaining) =>
    { a with
      version := a.version + 1
      reservations := a.reservations.insert nonce (fs, remainder remaining bytes) }

/-- `Lease::drop`. -/
def drop (nonce : UInt64) : Accounts :=
  { a with version := a.version + 1, reservations := a.reservations.erase nonce }

/-- The bytes that are reserved on a file system. -/
def outstanding (fs : Filesystem) : Nat :=
  a.reservations.sumBy fun _ r => if r.1 = fs then r.2.toNat else 0

end Accounts

/-- How much `reserve_file` reserves. -/
def reserveFileBytes (staging target : Filesystem) (remaining : UInt64) :
    Except SpaceError UInt64 :=
  if staging ≠ target then .error .crossFilesystem
  else
    match checkedAdd remaining taskOverhead with
    | none => .error .unavailable
    | some bytes => .ok bytes

/-! ## The machine -/

/-- Where a call of `reserve_with_probe` is; `seen` is how often the accounts had changed
    when it read their version. -/
inductive CallState where
  | waiting
  | versioned (version : UInt64) (seen : Nat)
  | probed (version : UInt64) (seen : Nat) (space : Probe)

structure ReserveCall where
  attempts : Nat
  bytes : UInt64
  state : CallState

structure SpaceLease where
  nonce : UInt64
  clones : Nat
  filesystem : Filesystem
  granted : Nat
  consumed : Nat
  reported : Nat

structure SpaceWorld where
  accounts : Accounts
  safetyMib : UInt16
  free : Filesystem → Nat
  margin : Filesystem → Nat
  changes : Nat
  calls : Handles ReserveCall
  leases : Handles SpaceLease

namespace SpaceWorld

/-- A service that starts on disks with this much free space. -/
def new (free : Filesystem → Nat) : SpaceWorld :=
  { accounts := ⟨0, 0, ∅⟩
    safetyMib := defaultSafetyMib
    free
    margin := fun _ => 0
    changes := 0
    calls := .empty
    leases := .empty }

variable (w : SpaceWorld)

def begin (bytes : UInt64) : SpaceWorld :=
  { w with calls := w.calls.issue ⟨4, bytes, .waiting⟩ }

def setState (c : Nat) (state : CallState) : SpaceWorld :=
  { w with calls := w.calls.modify c fun call => { call with state } }

/-- The call returns an error. -/
def fail (c : Nat) : SpaceWorld := { w with calls := w.calls.release c }

def setFree (fs : Filesystem) (n : Nat) : SpaceWorld :=
  { w with free := fun fs' => if fs' = fs then n else w.free fs' }

/-- The attempt of a call that has probed. -/
def attempt (c : Nat) (call : ReserveCall) (version : UInt64) (space : Probe) : SpaceWorld :=
  match w.accounts.admission w.safetyMib version space call.bytes with
  | .retry =>
    if call.attempts ≤ 1 then w.fail c
    else
      { w with
        calls := w.calls.modify c fun call =>
          { call with attempts := call.attempts - 1, state := .waiting } }
  | .refused _ => w.fail c
  | .granted accounts =>
    { w with
      accounts
      margin := fun fs =>
        if fs = space.filesystem then (Accounts.safetyBytes w.safetyMib).toNat else w.margin fs
      changes := w.changes + 1
      calls := w.calls.release c
      leases := w.leases.issue ⟨accounts.nonce, 1, space.filesystem, call.bytes.toNat, 0, 0⟩ }

/-- The last clone of a lease is dropped. -/
def dropLease (h : Nat) (lease : SpaceLease) : SpaceWorld :=
  { w with
    accounts := w.accounts.drop lease.nonce
    changes := w.changes + 1
    leases := w.leases.release h }

def report (h : Nat) (lease : SpaceLease) (bytes : UInt64) : SpaceWorld :=
  { w with
    accounts := w.accounts.written lease.nonce bytes
    changes :=
      if (w.accounts.reservations.lookup lease.nonce).isSome then w.changes + 1 else w.changes
    leases := w.leases.modify h fun l => { l with reported := l.reported + bytes.toNat } }

def consume (h : Nat) (lease : SpaceLease) (n : Nat) : SpaceWorld :=
  { w.setFree lease.filesystem (w.free lease.filesystem - n) with
    leases := w.leases.modify h fun l => { l with consumed := l.consumed + n } }

end SpaceWorld

inductive SpaceEvent where
  | reserve (bytes : UInt64)
  | reserveFile (staging target : Filesystem) (remaining : UInt64)
  | readVersion (call : Nat)
  | probe (call : Nat) (fs : Filesystem)
  | probeFails (call : Nat)
  | tryAdmit (call : Nat)
  | consume (lease : Nat) (bytes : Nat)
  | written (lease : Nat) (bytes : UInt64)
  | clone (lease : Nat)
  | drop (lease : Nat)
  | setSafetyMib (value : UInt16)
  | freed (fs : Filesystem) (bytes : Nat)

/-- Space is taken by the holders of leases only, each within what it was granted, and
    reported when it is taken.  A probe tells the free space, if it is a `u64`. -/
def SpaceWorld.step (w : SpaceWorld) : SpaceEvent → Option SpaceWorld
  | .reserve bytes => some (w.begin bytes)
  | .reserveFile staging target remaining =>
    match reserveFileBytes staging target remaining with
    | .error _ => some w
    | .ok bytes => some (w.begin bytes)
  | .readVersion c =>
    match w.calls.get c with
    | some ⟨_, _, .waiting⟩ => some (w.setState c (.versioned w.accounts.version w.changes))
    | _ => none
  | .probe c fs =>
    match w.calls.get c with
    | some ⟨_, _, .versioned version seen⟩ =>
      if w.free fs < 2 ^ 64 then
        some (w.setState c (.probed version seen ⟨fs, UInt64.ofNat (w.free fs)⟩))
      else some (w.fail c)
    | _ => none
  | .probeFails c =>
    match w.calls.get c with
    | some ⟨_, _, .versioned _ _⟩ => some (w.fail c)
    | _ => none
  | .tryAdmit c =>
    match w.calls.get c with
    | some ⟨attempts, bytes, .probed version seen space⟩ =>
      some (w.attempt c ⟨attempts, bytes, .probed version seen space⟩ version space)
    | _ => none
  | .consume h n =>
    match w.leases.get h with
    | none => none
    | some lease =>
      if lease.consumed + n ≤ lease.granted ∧ n ≤ w.free lease.filesystem then
        some (w.consume h lease n)
      else none
  | .written h bytes =>
    match w.leases.get h with
    | none => none
    | some lease =>
      if lease.reported + bytes.toNat ≤ lease.consumed then some (w.report h lease bytes)
      else none
  | .clone h =>
    match w.leases.get h with
    | none => none
    | some _ =>
      some { w with leases := w.leases.modify h fun l => { l with clones := l.clones + 1 } }
  | .drop h =>
    match w.leases.get h with
    | none => none
    | some lease =>
      if lease.clones ≤ 1 then some (w.dropLease h lease)
      else
        some { w with leases := w.leases.modify h fun l => { l with clones := l.clones - 1 } }
  | .setSafetyMib value => some (if value > maxSafetyMib then w else { w with safetyMib := value })
  | .freed fs n => some (w.setFree fs (w.free fs + n))

def spaceMachine : Machine SpaceWorld SpaceEvent :=
  .ofStep (fun w => ∃ free, w = .new free) SpaceWorld.step

/-- The 64-bit counters of the accounts do not come round: not the version while a call
    probes, nor the nonce while a lease lives. -/
def SpaceWorld.NoWrap (w : SpaceWorld) : SpaceEvent → Prop
  | .tryAdmit c => (∀ attempts bytes version seen space,
      w.calls.get c = some ⟨attempts, bytes, .probed version seen space⟩ →
        w.changes < seen + 2 ^ 64) ∧
      w.accounts.reservations.lookup (w.accounts.nonce + 1) = none
  | _ => True

end P2pFile.Node
