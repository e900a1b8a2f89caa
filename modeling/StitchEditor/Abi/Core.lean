import Mathlib
import StitchEditor.Lib.Fallible
import StitchEditor.Abi.Types

/-!
# StitchEditor.Abi.Core

A core and its frame leases: what the ABI does to one core while it holds
the core's lock.

Each function is one section under the lock.  An error leaves the core as it
was, since every check stands before the first write.
-/

namespace StitchEditor.Abi

open StitchEditor Fallible

/-! ## leases -/

/-- The identity of a thread. -/
abbrev ThreadId := Nat

inductive LeaseState where
  | registered
  | acquired
  | submitted
  | completed
  | retired
  deriving DecidableEq

/-- The discriminant of the enumeration. -/
def LeaseState.toUInt32 : LeaseState → UInt32
  | .registered => 1
  | .acquired => 2
  | .submitted => 3
  | .completed => 4
  | .retired => 5

structure Lease where
  metadata : StitchFrameMetadata
  state : LeaseState
  owner : ThreadId
  deriving DecidableEq

structure CoreState where
  history : EditorHistory
  epoch : UInt64
  leases : OrdMap UInt64 Lease
  owner : ThreadId
  deriving DecidableEq

/-- The revision that callers see. -/
def CoreState.revision (self : CoreState) : StitchDigest := digest self.history.currentHash

/-- The lease was registered for the current epoch and revision. -/
def Lease.Current (lease : Lease) (core : CoreState) : Prop :=
  lease.metadata.epoch = core.epoch ∧ lease.metadata.revision = core.revision

instance (lease : Lease) (core : CoreState) : Decidable (lease.Current core) :=
  inferInstanceAs (Decidable (_ ∧ _))

namespace CoreState

/-! ## the project and the epoch -/

/-- The section of `stitch_core_set_epoch`. -/
def setEpoch (self : CoreState) (thread : ThreadId) (epoch : UInt64) :
    Except StitchResult CoreState := do
  refuse (self.owner ≠ thread) .invalidArgument
  refuse (epoch < self.epoch) .staleEpoch
  pure { self with epoch := epoch }

theorem setEpoch_eq_ok_iff {self core : CoreState} {thread : ThreadId} {epoch : UInt64} :
    self.setEpoch thread epoch = .ok core ↔
      self.owner = thread ∧ self.epoch ≤ epoch ∧ core = { self with epoch := epoch } := by
  simp only [setEpoch, bind_eq_ok_iff, refuse_eq_ok_iff, pure_eq_ok_iff, exists_const, not_not,
    UInt64.not_lt, eq_comm (a := core)]

section Hashing

variable [Sha256]

/-- `snapshot_metadata`. -/
def snapshotMetadata (self : CoreState) : StitchSnapshotMetadata where
  header := header snapshotMetadataSize
  revision := self.revision
  projectDigest := self.history.project.semanticDigest.bytes
  epoch := self.epoch
  assetCount := UInt64.ofNat self.history.project.assets.size
  trackCount := UInt64.ofNat self.history.project.tracks.size
  clipCount := UInt64.ofNat self.history.project.clips.size

/-- Decode a raw command and apply it. -/
def applyRaw (history : EditorHistory) (raw : StitchCommand) :
    Except StitchResult EditorHistory := do
  match history.apply (← command raw) with
  | (.ok _, history) => .ok history
  | (.error _, _) => .error .modelError

/-- The section of `stitch_core_submit`. -/
def submit (self : CoreState) (thread : ThreadId) (batch : StitchCommandBatch) :
    Except StitchResult (CoreState × StitchDiffMetadata) := do
  refuse (self.owner ≠ thread) .invalidArgument
  refuse (batch.epoch ≠ self.epoch) .staleEpoch
  refuse (self.revision ≠ batch.expectedRevision) .staleRevision
  let commands := (batch.commands.getD []).take batch.commandCount.toNat
  let next ← commands.foldlM applyRaw self.history
  let self' := { self with history := next }
  pure (self', {
    header := header diffMetadataSize
    previousRevision := self.revision
    revision := self'.revision
    projectDigest := self'.history.project.semanticDigest.bytes
    epoch := self'.epoch })

theorem submit_eq_ok {self core : CoreState} {thread : ThreadId} {batch : StitchCommandBatch}
    {metadata : StitchDiffMetadata} (h : self.submit thread batch = .ok (core, metadata)) :
    ∃ next, core = { self with history := next } := by
  simp only [submit, bind_eq_ok_iff, pure_eq_ok_iff, Prod.mk.injEq] at h
  obtain ⟨_, _, _, _, _, _, next, -, rfl, -⟩ := h
  exact ⟨next, rfl⟩

end Hashing

/-! ## frame leases -/

/-- The section of `stitch_frame_lease_register`, before it takes an id. -/
def checkRegister (self : CoreState) (metadata : StitchFrameMetadata) :
    Except StitchResult Unit := do
  refuse (metadata.epoch ≠ self.epoch) .staleEpoch
  refuse (metadata.revision ≠ self.revision) .staleRevision

theorem checkRegister_eq_ok_iff {self : CoreState} {metadata : StitchFrameMetadata} {u : Unit} :
    self.checkRegister metadata = .ok u ↔
      metadata.epoch = self.epoch ∧ metadata.revision = self.revision := by
  simp [checkRegister, bind_eq_ok_iff, refuse_eq_ok_iff]

/-- The section of `stitch_frame_lease_register`, with its id. -/
def insertLease (self : CoreState) (thread : ThreadId) (id : UInt64)
    (metadata : StitchFrameMetadata) : CoreState :=
  { self with
    leases := self.leases.insert id
      ⟨{ metadata with leaseId := id, ownerThreadToken := id }, .registered, thread⟩ }

/-- A lease that the thread may change. -/
def ownedLease (self : CoreState) (thread : ThreadId) (leaseId device : UInt64) :
    Except StitchResult Lease := do
  match self.leases[leaseId]? with
  | none => .error .unknownHandle
  | some lease => do
      refuse (lease.metadata.deviceGeneration ≠ device) .staleDevice
      refuse (lease.owner ≠ thread) .invalidArgument
      pure lease

theorem ownedLease_eq_ok_iff {self : CoreState} {thread : ThreadId} {leaseId device : UInt64}
    {lease : Lease} : self.ownedLease thread leaseId device = .ok lease ↔
      self.leases[leaseId]? = some lease ∧ lease.metadata.deviceGeneration = device ∧
        lease.owner = thread := by
  unfold ownedLease
  cases self.leases[leaseId]? with
  | none => simp
  | some found =>
      simp only [bind_eq_ok_iff, refuse_eq_ok_iff, pure_eq_ok_iff, not_not, Option.some.injEq,
        exists_const]
      constructor
      · rintro ⟨hdevice, howner, rfl⟩
        exact ⟨rfl, hdevice, howner⟩
      · rintro ⟨rfl, hdevice, howner⟩
        exact ⟨hdevice, howner, rfl⟩

/-- The section of `lease_transition`. -/
def leaseTransition (self : CoreState) (thread : ThreadId) (leaseId device : UInt64)
    (expected next : LeaseState) : Except StitchResult CoreState := do
  let lease ← self.ownedLease thread leaseId device
  refuse (lease.state ≠ expected) .badLeaseState
  pure { self with
    leases := self.leases.insert leaseId
      { lease with state := next, metadata := { lease.metadata with state := next.toUInt32 } } }

theorem leaseTransition_eq_ok_iff {self core : CoreState} {thread : ThreadId}
    {leaseId device : UInt64} {expected next : LeaseState} :
    self.leaseTransition thread leaseId device expected next = .ok core ↔
      ∃ lease, self.ownedLease thread leaseId device = .ok lease ∧ lease.state = expected ∧
        core = { self with
          leases := self.leases.insert leaseId
            { lease with
              state := next
              metadata := { lease.metadata with state := next.toUInt32 } } } := by
  simp only [leaseTransition, bind_eq_ok_iff, refuse_eq_ok_iff, pure_eq_ok_iff, exists_const,
    not_not, eq_comm (a := core)]

/-- A transition succeeds from the lease's own state, and does not look at
epoch and revision. -/
theorem exists_leaseTransition {self : CoreState} {thread : ThreadId} {leaseId device : UInt64}
    {lease : Lease} (next : LeaseState)
    (howned : self.ownedLease thread leaseId device = .ok lease) :
    ∃ core lease', self.leaseTransition thread leaseId device lease.state next = .ok core ∧
      core.leases[leaseId]? = some lease' ∧ lease'.state = next ∧
      (lease'.Current core ↔ lease.Current self) :=
  ⟨_, _, leaseTransition_eq_ok_iff.mpr ⟨lease, howned, rfl, rfl⟩,
    Std.ExtTreeMap.getElem?_insert_self, rfl, Iff.rfl⟩

/-- The section of `stitch_frame_lease_discard`. -/
def discard (self : CoreState) (thread : ThreadId) (leaseId device : UInt64) :
    Except StitchResult CoreState := do
  let lease ← self.ownedLease thread leaseId device
  refuse (lease.state ≠ .registered ∧ lease.state ≠ .acquired) .badLeaseState
  pure { self with leases := self.leases.erase leaseId }

theorem discard_eq_ok {self core : CoreState} {thread : ThreadId} {leaseId device : UInt64}
    (h : self.discard thread leaseId device = .ok core) :
    core = { self with leases := self.leases.erase leaseId } := by
  simp only [discard, bind_eq_ok_iff, pure_eq_ok_iff] at h
  obtain ⟨_, _, _, _, rfl⟩ := h
  rfl

/-- The first section of `stitch_frame_lease_acquire`: the caller's epoch
and revision. -/
def checkAcquire (self : CoreState) (epoch : UInt64) (revision : StitchDigest) :
    Except StitchResult Unit := do
  refuse (epoch ≠ self.epoch) .staleEpoch
  refuse (revision ≠ self.revision) .staleRevision

/-- The first section of `stitch_frame_lease_submit`: the lease's epoch and
revision. -/
def checkSubmit (self : CoreState) (leaseId : UInt64) : Except StitchResult Unit :=
  match self.leases[leaseId]? with
  | none => .error .unknownHandle
  | some current => do
      refuse (current.metadata.epoch ≠ self.epoch) .staleEpoch
      refuse (current.metadata.revision ≠ self.revision) .staleRevision

theorem checkSubmit_eq_ok_iff {self : CoreState} {leaseId : UInt64} {u : Unit} :
    self.checkSubmit leaseId = .ok u ↔
      ∃ lease, self.leases[leaseId]? = some lease ∧ lease.Current self := by
  unfold checkSubmit Lease.Current
  cases self.leases[leaseId]? with
  | none => simp
  | some current => simp [bind_eq_ok_iff, refuse_eq_ok_iff]

/-- The last section of `stitch_frame_lease_retire`. -/
def removeLease (self : CoreState) (leaseId : UInt64) : CoreState :=
  { self with leases := self.leases.erase leaseId }

end CoreState

end StitchEditor.Abi
