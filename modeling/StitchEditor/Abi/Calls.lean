import Mathlib
import StitchEditor.Abi.Core

/-!
# StitchEditor.Abi.Calls

The calls of the C ABI as steps of their threads.

A thread is between two calls or about to run one section of a call: a
piece of code under a mutex, or an atomic operation.  A core is reached in
two sections, one that finds it in the registry and one that holds its own
lock; other threads may run in between, and a core that has left the
registry lives on for those that found it before.

While a submit runs its callback the thread may make further calls.
-/

namespace StitchEditor.Abi

open StitchEditor

/-! ## programs -/

/-- What a call does under the lock of a core. -/
inductive Access where
  | setEpoch (epoch : UInt64)
  | snapshot
  | submit (batch : StitchCommandBatch) (callback : Bool)
  | register (metadata : StitchFrameMetadata)
  | metadataGet (lease : UInt64) (out : Bool)
  | checkAcquire (core lease device epoch : UInt64) (revision : StitchDigest)
  | checkSubmit (core lease device : UInt64)
  | transition (lease device : UInt64) (expected next : LeaseState) (retire : Option UInt64)
  | discard (lease device : UInt64)
  | remove (lease : UInt64)
  deriving DecidableEq

/-- The section that a thread is about to run. -/
inductive Pc where
  | allocateCore (epoch : UInt64)
  | insertCore (handle epoch : UInt64)
  | destroy (core : UInt64)
  | lookup (core : UInt64) (access : Access)
  | locked (entry : Nat) (access : Access)
  | allocateDiff (metadata : StitchDiffMetadata) (callback : Bool)
  | insertDiff (handle : UInt64) (metadata : StitchDiffMetadata) (callback : Bool)
  | snapshotRetain (handle : UInt64)
  | snapshotRelease (handle : UInt64)
  | snapshotMetadataGet (handle : UInt64) (out : Bool)
  | diffRetain (handle : UInt64)
  | diffRelease (handle : UInt64)
  | diffMetadataGet (handle : UInt64) (out : Bool)
  deriving DecidableEq

/-- The exported functions with their arguments. -/
inductive Call where
  | coreCreate (config : Option StitchCoreConfig) (outCore : Bool)
  | coreDestroy (core : UInt64)
  | coreSetEpoch (core epoch : UInt64)
  | coreSnapshot (core : UInt64) (outSnapshot : Bool)
  | coreSubmit (core : UInt64) (batch : Option StitchCommandBatch) (callback outDiff : Bool)
  | snapshotRetain (handle : UInt64)
  | snapshotRelease (handle : UInt64)
  | snapshotMetadataGet (handle : UInt64) (outMetadata : Bool)
  | diffRetain (handle : UInt64)
  | diffRelease (handle : UInt64)
  | diffMetadataGet (handle : UInt64) (outMetadata : Bool)
  | frameLeaseRegister (core : UInt64) (metadata : Option StitchFrameMetadata) (outLease : Bool)
  | frameLeaseMetadataGet (core lease : UInt64) (outMetadata : Bool)
  | frameLeaseAcquire (core lease device epoch : UInt64) (revision : Option StitchDigest)
  | frameLeaseDiscard (core lease device : UInt64)
  | frameLeaseSubmit (core lease device : UInt64)
  | frameLeaseComplete (core lease device : UInt64)
  | frameLeaseRetire (core lease device : UInt64)
  deriving DecidableEq

/-- The checks of `stitch_core_submit` that need no lock. -/
def checkBatch (batch : StitchCommandBatch) : Except StitchResult Unit := do
  validHeader commandBatchSize batch.header
  refuse (batch.reserved ≠ 0) .invalidBatch
  let count := batch.commandCount.toNat
  refuse (count = 0 ∨ count > maxCommands ∨ (count > 0 ∧ batch.commands = none)) .invalidBatch

/-- The checks of `stitch_frame_lease_register` that need no lock. -/
def checkMetadata (metadata : StitchFrameMetadata) : Except StitchResult Unit := do
  validHeader frameMetadataSize metadata.header
  let _ ← rational metadata.presentationTime
  refuse (metadata.leaseId ≠ 0 ∨ metadata.state ≠ LeaseState.registered.toUInt32 ∨
    metadata.deviceGeneration = 0 ∨ metadata.surfaceToken = 0 ∨ metadata.pixelWidth = 0 ∨
    metadata.pixelHeight = 0 ∨ metadata.pixelFormat ≠ 1 ∨
    (metadata.synchronizationKind ≠ 1 ∧ metadata.synchronizationKind ≠ 2) ∨
    (metadata.synchronizationKind = 2 ∧ metadata.synchronizationToken = 0) ∨
    metadata.ownerThreadToken ≠ 0 ∨ metadata.reserved ≠ 0) .invalidArgument

/-- What a call does before its first section: the checks that concern its
arguments and its thread only. -/
def Call.start (call : Call) (inCallback : Bool) : Except StitchResult Pc :=
  match call with
  | .coreCreate config outCore => do
      writable outCore
      let config ← input config
      validHeader coreConfigSize config.header
      pure (.allocateCore config.initialEpoch)
  | .coreDestroy core => do
      refuse inCallback .reentrantMutation
      pure (.destroy core)
  | .coreSetEpoch core epoch => do
      refuse inCallback .reentrantMutation
      pure (.lookup core (.setEpoch epoch))
  | .coreSnapshot core outSnapshot => do
      writable outSnapshot
      pure (.lookup core .snapshot)
  | .coreSubmit core batch callback outDiff => do
      writable outDiff
      refuse inCallback .reentrantMutation
      let batch ← input batch
      checkBatch batch
      pure (.lookup core (.submit batch callback))
  | .snapshotRetain handle => pure (.snapshotRetain handle)
  | .snapshotRelease handle => pure (.snapshotRelease handle)
  | .snapshotMetadataGet handle outMetadata => pure (.snapshotMetadataGet handle outMetadata)
  | .diffRetain handle => pure (.diffRetain handle)
  | .diffRelease handle => pure (.diffRelease handle)
  | .diffMetadataGet handle outMetadata => pure (.diffMetadataGet handle outMetadata)
  | .frameLeaseRegister core metadata outLease => do
      refuse inCallback .reentrantMutation
      writable outLease
      let metadata ← input metadata
      checkMetadata metadata
      pure (.lookup core (.register metadata))
  | .frameLeaseMetadataGet core lease outMetadata =>
      pure (.lookup core (.metadataGet lease outMetadata))
  | .frameLeaseAcquire core lease device epoch revision => do
      refuse inCallback .reentrantMutation
      let revision ← input revision
      pure (.lookup core (.checkAcquire core lease device epoch revision))
  | .frameLeaseDiscard core lease device => do
      refuse inCallback .reentrantMutation
      pure (.lookup core (.discard lease device))
  | .frameLeaseSubmit core lease device => do
      refuse inCallback .reentrantMutation
      pure (.lookup core (.checkSubmit core lease device))
  | .frameLeaseComplete core lease device => do
      refuse inCallback .reentrantMutation
      pure (.lookup core (.transition lease device .submitted .completed none))
  | .frameLeaseRetire core lease device => do
      refuse inCallback .reentrantMutation
      pure (.lookup core (.transition lease device .completed .retired (some core)))

/-! ## the process -/

structure RefHandle (α : Type) where
  value : α
  refs : UInt32
  deriving DecidableEq

/-- `IN_CALLBACK`, with the diff that the callback is about, and the section
that the thread is about to run. -/
structure Thread where
  callback : Option UInt64
  pc : Option Pc

/-- The state of the library: its global tables, every core that was ever
created, and its threads. -/
structure Process where
  nextHandle : UInt64
  cores : OrdMap UInt64 Nat
  heap : List CoreState
  snapshots : OrdMap UInt64 (RefHandle StitchSnapshotMetadata)
  diffs : OrdMap UInt64 (RefHandle StitchDiffMetadata)
  threads : ThreadId → Thread

def Process.initial : Process where
  nextHandle := 1
  cores := ∅
  heap := []
  snapshots := ∅
  diffs := ∅
  threads _ := ⟨none, none⟩

/-- What a call leaves in its output pointer. -/
inductive Output where
  | none
  | handle (handle : UInt64)
  | snapshotMetadata (metadata : StitchSnapshotMetadata)
  | diffMetadata (metadata : StitchDiffMetadata)
  | frameMetadata (metadata : StitchFrameMetadata)
  deriving DecidableEq

/-- How a call goes on after a section. -/
inductive Progress where
  | finished (result : StitchResult) (output : Output)
  | continues (pc : Pc)
  | callback (diff : UInt64)
  deriving DecidableEq

/-- `retain`. -/
def retain {α : Type} (entries : OrdMap UInt64 (RefHandle α)) (handle : UInt64) :
    Except StitchResult (OrdMap UInt64 (RefHandle α)) :=
  match entries[handle]? with
  | none => .error .unknownHandle
  | some entry =>
      if entry.refs.toNat + 1 < 2 ^ 32 then
        .ok (entries.insert handle { entry with refs := entry.refs + 1 })
      else .error .invalidArgument

/-- `release`. -/
def release {α : Type} (entries : OrdMap UInt64 (RefHandle α)) (handle : UInt64) :
    Except StitchResult (OrdMap UInt64 (RefHandle α)) :=
  match entries[handle]? with
  | none => .error .unknownHandle
  | some entry =>
      if entry.refs = 1 then .ok (entries.erase handle)
      else .ok (entries.insert handle { entry with refs := entry.refs - 1 })

/-- `stitch_snapshot_metadata_get` and `stitch_diff_metadata_get`. -/
def metadataGet {α : Type} (entries : OrdMap UInt64 (RefHandle α)) (handle : UInt64) (out : Bool) :
    Except StitchResult α :=
  match entries[handle]? with
  | none => .error .unknownHandle
  | some entry => do
      writable out
      pure entry.value

/-! ## sections -/

namespace Process

/-- The handle that `next_handle` returns. -/
def freshHandle (self : Process) : UInt64 := max self.nextHandle 1

/-- What `next_handle` leaves behind. -/
def bump (self : Process) : Process := { self with nextHandle := self.nextHandle + 1 }

def setCore (self : Process) (entry : Nat) (core : CoreState) : Process :=
  { self with heap := self.heap.set entry core }

/-- The section of `stitch_core_destroy`, which holds the registry and the
core. -/
def destroy (self : Process) (thread : ThreadId) (handle : UInt64) :
    Except StitchResult Process :=
  match self.cores[handle]?.bind (self.heap[·]?) with
  | none => .error .unknownHandle
  | some core => do
      refuse (core.owner ≠ thread) .invalidArgument
      refuse (core.leases ≠ ∅) .badLeaseState
      pure { self with cores := self.cores.erase handle }

section Hashing

variable [Sha256]

/-- A section under the lock of the core. -/
def access (self : Process) (thread : ThreadId) (entry : Nat) (core : CoreState) (access : Access) :
    Except StitchResult (Process × Progress) :=
  match access with
  | .setEpoch epoch => do
      pure (self.setCore entry (← core.setEpoch thread epoch), .finished .ok .none)
  | .snapshot =>
      pure ({ self.bump with
        snapshots := self.snapshots.insert self.freshHandle ⟨core.snapshotMetadata, 1⟩ },
        .finished .ok (.handle self.freshHandle))
  | .submit batch callback => do
      let (core, metadata) ← core.submit thread batch
      pure (self.setCore entry core, .continues (.allocateDiff metadata callback))
  | .register metadata => do
      core.checkRegister metadata
      pure (self.bump.setCore entry (core.insertLease thread self.freshHandle metadata),
        .finished .ok (.handle self.freshHandle))
  | .metadataGet lease out =>
      match core.leases[lease]? with
      | none => .error .unknownHandle
      | some lease => do
          writable out
          pure (self, .finished .ok (.frameMetadata lease.metadata))
  | .checkAcquire handle lease device epoch revision => do
      core.checkAcquire epoch revision
      pure (self, .continues (.lookup handle (.transition lease device .registered .acquired none)))
  | .checkSubmit handle lease device => do
      core.checkSubmit lease
      pure (self, .continues (.lookup handle (.transition lease device .acquired .submitted none)))
  | .transition lease device expected next retire => do
      let core ← core.leaseTransition thread lease device expected next
      pure (self.setCore entry core, match retire with
        | none => .finished .ok .none
        | some handle => .continues (.lookup handle (.remove lease)))
  | .discard lease device => do
      pure (self.setCore entry (← core.discard thread lease device), .finished .ok .none)
  | .remove lease => pure (self.setCore entry (core.removeLease lease), .finished .ok .none)

/-- One section of a call; an error ends it and leaves the process as it
was. -/
def exec (self : Process) (thread : ThreadId) (pc : Pc) :
    Except StitchResult (Process × Progress) :=
  match pc with
  | .allocateCore epoch => pure (self.bump, .continues (.insertCore self.freshHandle epoch))
  | .insertCore handle epoch =>
      pure ({ self with
        cores := self.cores.insert handle self.heap.length
        heap := self.heap ++ [⟨.default, epoch, ∅, thread⟩] }, .finished .ok (.handle handle))
  | .destroy core => do pure (← self.destroy thread core, .finished .ok .none)
  | .lookup core access =>
      match self.cores[core]? with
      | none => .error .unknownHandle
      | some entry => pure (self, .continues (.locked entry access))
  | .locked entry access =>
      match self.heap[entry]? with
      | none => .error .unknownHandle
      | some core => self.access thread entry core access
  | .allocateDiff metadata callback =>
      pure (self.bump, .continues (.insertDiff self.freshHandle metadata callback))
  | .insertDiff handle metadata callback =>
      pure ({ self with diffs := self.diffs.insert handle ⟨metadata, 1⟩ },
        if callback then .callback handle else .finished .ok (.handle handle))
  | .snapshotRetain handle => do
      pure ({ self with snapshots := ← retain self.snapshots handle }, .finished .ok .none)
  | .snapshotRelease handle => do
      pure ({ self with snapshots := ← release self.snapshots handle }, .finished .ok .none)
  | .snapshotMetadataGet handle out => do
      pure (self, .finished .ok (.snapshotMetadata (← metadataGet self.snapshots handle out)))
  | .diffRetain handle => do
      pure ({ self with diffs := ← retain self.diffs handle }, .finished .ok .none)
  | .diffRelease handle => do
      pure ({ self with diffs := ← release self.diffs handle }, .finished .ok .none)
  | .diffMetadataGet handle out => do
      pure (self, .finished .ok (.diffMetadata (← metadataGet self.diffs handle out)))

/-! ## steps -/

def setThread (self : Process) (thread : ThreadId) (state : Thread) : Process :=
  { self with threads := Function.update self.threads thread state }

end Hashing

end Process

/-- What a thread may do next. -/
inductive Action where
  | begin (thread : ThreadId) (call : Call)
  | advance (thread : ThreadId)
  | endCallback (thread : ThreadId)

/-- A step, and the result of the call that it ends. -/
structure Label where
  action : Action
  returned : Option (StitchResult × Output)

section Steps

variable [Sha256]

/-- One step of a thread; `none` where it cannot happen. -/
def Process.step (self : Process) (action : Action) :
    Option (Process × Option (StitchResult × Output)) :=
  match action with
  | .begin thread call =>
      match (self.threads thread).pc with
      | some _ => none
      | none => match call.start (self.threads thread).callback.isSome with
        | .error error => some (self, some (error, .none))
        | .ok pc => some (self.setThread thread { self.threads thread with pc := some pc }, none)
  | .advance thread =>
      match (self.threads thread).pc with
      | none => none
      | some pc => match self.exec thread pc with
        | .error error =>
            some (self.setThread thread { self.threads thread with pc := none },
              some (error, .none))
        | .ok (next, .finished result output) =>
            some (next.setThread thread { self.threads thread with pc := none },
              some (result, output))
        | .ok (next, .continues pc) =>
            some (next.setThread thread { self.threads thread with pc := some pc }, none)
        | .ok (next, .callback diff) => some (next.setThread thread ⟨some diff, none⟩, none)
  | .endCallback thread =>
      match self.threads thread with
      | ⟨some diff, none⟩ => some (self.setThread thread ⟨none, none⟩, some (.ok, .handle diff))
      | _ => none

def Process.Step (p : Process) (label : Label) (p' : Process) : Prop :=
  p.step label.action = some (p', label.returned)

end Steps

end StitchEditor.Abi
