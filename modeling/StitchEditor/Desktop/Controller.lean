import Mathlib
import StitchEditor.Abi.Calls

/-!
# StitchEditor.Desktop.Controller

`EditorController`, the one owner of a core in the desktop shell: what it
publishes about the core, and the frame-lease calls that it makes for the
preview on the render thread.

The preview is alone in making lease calls on its thread, so that the
sections of a call follow one another.
-/

namespace StitchEditor.Desktop

open StitchEditor Abi Fallible

/-! ## data -/

/-- The revision and the epoch that a frame is for. -/
structure FrameContext where
  revision : StitchDigest
  epoch : UInt64
  valid : Bool
  deriving DecidableEq

/-- `FrameContext{}`. -/
def FrameContext.none : FrameContext := ⟨.replicate 32 0, 0, false⟩

/-- The controller; it has no core where `stitch_core_create` failed. -/
structure EditorController where
  core : Option CoreState
  frameContext : FrameContext
  deriving DecidableEq

/-- `STITCH_PIXEL_FORMAT_RGBA8_UNORM`. -/
def pixelFormatRgba8Unorm : UInt32 := 1

/-- `STITCH_SYNCHRONIZATION_BRIDGE_TOKEN`. -/
def synchronizationBridgeToken : UInt32 := 2

namespace EditorController

/-! ## the GUI thread -/

/-- An edit or a cancellation: a core's history and epoch change, and nothing
else does. -/
def edit (self : EditorController) (history : EditorHistory) (epoch : UInt64) : EditorController :=
  { self with core := self.core.map fun core => { core with history := history, epoch := epoch } }

/-- `refreshSnapshot`, as far as it publishes the frame context. -/
def refreshSnapshot (self : EditorController) : EditorController :=
  match self.core with
  | none => self
  | some core => { self with frameContext := ⟨core.revision, core.epoch, true⟩ }

/-! ## frame leases -/

/-- A call that changes the core, unless it fails. -/
def call (self : EditorController) (f : CoreState → Except StitchResult CoreState) :
    Bool × EditorController :=
  match self.core with
  | none => (false, self)
  | some core => match f core with
    | .error _ => (false, self)
    | .ok core => (true, { self with core := some core })

/-- The frame that the preview registers. -/
def frameMetadata (context : FrameContext) (device surfaceToken synchronizationToken : UInt64)
    (width height : UInt32) : StitchFrameMetadata where
  header := header frameMetadataSize
  leaseId := 0
  revision := context.revision
  epoch := context.epoch
  deviceGeneration := device
  surfaceToken := surfaceToken
  synchronizationToken := synchronizationToken
  ownerThreadToken := 0
  pixelWidth := width
  pixelHeight := height
  pixelFormat := pixelFormatRgba8Unorm
  synchronizationKind := synchronizationBridgeToken
  synchronizationValue := 1
  presentationTime := ⟨0, 1⟩
  state := LeaseState.registered.toUInt32
  reserved := 0

def discardFrame (self : EditorController) (thread : ThreadId) (device lease : UInt64) :
    EditorController :=
  if lease = 0 then self else (self.call fun core => core.discard thread lease device).2

/-- The metadata of the lease are those of an acquired frame with the
tokens. -/
def confirms (self : EditorController) (lease surfaceToken synchronizationToken : UInt64) : Bool :=
  match self.core.bind fun core => core.leases[lease]? with
  | none => false
  | some confirmed => confirmed.metadata.state = LeaseState.acquired.toUInt32 ∧
      confirmed.metadata.ownerThreadToken ≠ 0 ∧ confirmed.metadata.surfaceToken = surfaceToken ∧
      confirmed.metadata.synchronizationToken = synchronizationToken

/-- `registerAcquireFrame`, with the handle that the library takes for the
lease; `none` for `false`. -/
def registerAcquireFrame (self : EditorController) (thread : ThreadId) (handle device surfaceToken
    synchronizationToken : UInt64) (width height : UInt32) :
    Option (UInt64 × FrameContext) × EditorController :=
  let context := self.frameContext
  if context.valid = false then (none, self)
  else
    let metadata := frameMetadata context device surfaceToken synchronizationToken width height
    match self.call fun core => do
      checkMetadata metadata
      core.checkRegister metadata
      pure (core.insertLease thread handle metadata) with
    | (false, self) => (none, self)
    | (true, self) =>
        match self.call fun core => do
          core.checkAcquire context.epoch context.revision
          core.leaseTransition thread handle device .registered .acquired with
        | (false, self) => (none, self.discardFrame thread device handle)
        | (true, self) =>
            if self.confirms handle surfaceToken synchronizationToken then
              (some (handle, context), self)
            else (none, self.discardFrame thread device handle)

def submitFrame (self : EditorController) (thread : ThreadId) (device lease : UInt64) :
    Bool × EditorController :=
  if lease = 0 then (false, self)
  else match self.call fun core => do
      core.checkSubmit lease
      core.leaseTransition thread lease device .acquired .submitted with
    | (false, self) => (false, self.discardFrame thread device lease)
    | (true, self) => (true, self)

/-- `completeAndRetireFrame`, with the states that the lease reaches: both
for `true`. -/
def completeAndRetireFrame (self : EditorController) (thread : ThreadId) (device lease : UInt64) :
    List LeaseState × EditorController :=
  if lease = 0 then ([], self)
  else match self.call fun core =>
      core.leaseTransition thread lease device .submitted .completed with
    | (false, self) => ([], self)
    | (true, self) =>
        match self.call fun core => do
          let core ← core.leaseTransition thread lease device .completed .retired
          pure (core.removeLease lease) with
        | (false, self) => ([.completed], self)
        | (true, self) => ([.completed, .retired], self)

/-! ## what the calls do to a lease -/

/-- The lease is in the state, and the thread may move it. -/
def Holds (controller : EditorController) (thread : ThreadId) (device lease : UInt64)
    (state : LeaseState) : Prop :=
  ∃ core found, controller.core = some core ∧
    core.ownedLease thread lease device = .ok found ∧ found.state = state

variable {controller next : EditorController} {thread : ThreadId}
  {handle device lease surfaceToken synchronizationToken : UInt64} {state : LeaseState}

theorem call_eq_true_iff {f : CoreState → Except StitchResult CoreState} :
    controller.call f = (true, next) ↔ ∃ core core', controller.core = some core ∧
      f core = .ok core' ∧ next = { controller with core := some core' } := by
  unfold call
  cases controller.core with
  | none => simp
  | some core => cases hf : f core <;> simp [hf, eq_comm]

theorem ownedLease_of_transition {core core' : CoreState} {expected : LeaseState}
    (h : core.leaseTransition thread lease device expected state = .ok core') :
    ∃ found, core'.ownedLease thread lease device = .ok found ∧ found.state = state := by
  obtain ⟨found, howned, -, rfl⟩ := CoreState.leaseTransition_eq_ok_iff.mp h
  obtain ⟨-, hdevice, hthread⟩ := CoreState.ownedLease_eq_ok_iff.mp howned
  refine ⟨_, CoreState.ownedLease_eq_ok_iff.mpr ⟨Std.ExtTreeMap.getElem?_insert_self, ?_⟩, rfl⟩
  exact ⟨hdevice, hthread⟩

/-- A lease that the thread may move is moved. -/
theorem Holds.call_transition (h : controller.Holds thread device lease state)
    (state' : LeaseState) :
    ∃ core core', controller.core = some core ∧
      core.leaseTransition thread lease device state state' = .ok core' ∧
      ∃ found, core'.ownedLease thread lease device = .ok found ∧ found.state = state' := by
  obtain ⟨core, found, hcore, howned, rfl⟩ := h
  obtain ⟨core', -, hmoves, -⟩ := CoreState.exists_leaseTransition state' howned
  exact ⟨core, core', hcore, hmoves, ownedLease_of_transition hmoves⟩

/-- A submitted lease is completed and retired. -/
theorem Holds.completeAndRetireFrame (h : controller.Holds thread device lease .submitted)
    (hlease : lease ≠ 0) :
    (controller.completeAndRetireFrame thread device lease).1 = [.completed, .retired] := by
  obtain ⟨core, core', hcore, hcompleted, found, howned, hstate⟩ := h.call_transition .completed
  obtain ⟨core'', -, hretired, -⟩ := CoreState.exists_leaseTransition .retired howned
  rw [hstate] at hretired
  simp [EditorController.completeAndRetireFrame, hlease, call, hcore, hcompleted, hretired]

/-- Edits and cancellations leave the leases alone. -/
theorem Holds.edit (h : controller.Holds thread device lease state) (history : EditorHistory)
    (epoch : UInt64) : (controller.edit history epoch).Holds thread device lease state := by
  obtain ⟨core, found, hcore, howned, hstate⟩ := h
  refine ⟨{ core with history := history, epoch := epoch }, found, ?_, ?_, hstate⟩
  · simp [EditorController.edit, hcore]
  · simpa [CoreState.ownedLease_eq_ok_iff] using howned

theorem Holds.refreshSnapshot (h : controller.Holds thread device lease state) :
    controller.refreshSnapshot.Holds thread device lease state := by
  obtain ⟨core, found, hcore, hfound⟩ := h
  refine ⟨core, found, ?_, hfound⟩
  simp [EditorController.refreshSnapshot, hcore]

/-- A lease that is submitted stays with the thread that submitted it. -/
theorem submitFrame_eq_true (h : controller.submitFrame thread device lease = (true, next)) :
    lease ≠ 0 ∧ next.Holds thread device lease .submitted := by
  unfold submitFrame at h
  by_cases hlease : lease = 0
  · simp [hlease] at h
  rw [if_neg hlease] at h
  split at h
  · cases h
  · rename_i hcall
    obtain ⟨core, core', -, hsubmit, rfl⟩ := call_eq_true_iff.mp hcall
    obtain ⟨-, -, hmoves⟩ := bind_eq_ok_iff.mp hsubmit
    obtain ⟨found, hfound⟩ := ownedLease_of_transition hmoves
    obtain ⟨-, rfl⟩ := Prod.mk.inj h
    exact ⟨hlease, core', found, rfl, hfound⟩

end EditorController

end StitchEditor.Desktop
