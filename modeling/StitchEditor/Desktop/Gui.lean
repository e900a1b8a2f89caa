import Mathlib
import StitchEditor.Abi.Negotiation
import StitchEditor.Abi.Ownership
import StitchEditor.Desktop.Controller

/-!
# StitchEditor.Desktop.Gui

`EditorController` on its own thread, call by call: the constructor, the slots
that the user interface invokes, and the destructor.

The slots keep a snapshot of the core and the last diff open, and publish the
revision and the epoch of the snapshot for the render thread.
-/

namespace StitchEditor.Desktop

open StitchEditor Abi Client

/-! ## data -/

/-- A function of the controller that makes calls on its own thread. -/
abbrev Gui (α : Type) := Program OwnerCall OwnerReply α

/-- The fields of `EditorController`. -/
structure GuiController where
  core : UInt64
  snapshot : UInt64
  diff : UInt64
  snapshotMetadata : StitchSnapshotMetadata
  frameContext : FrameContext
  status : String
  nextTrackId : UInt64

/-- `stitch_snapshot_metadata{}`. -/
def zeroSnapshotMetadata : StitchSnapshotMetadata where
  header := ⟨0, 0⟩
  revision := .replicate 32 0
  projectDigest := .replicate 32 0
  epoch := 0
  assetCount := 0
  trackCount := 0
  clipCount := 0

/-- `stitch_diff_metadata{}`. -/
def zeroDiffMetadata : StitchDiffMetadata where
  header := ⟨0, 0⟩
  previousRevision := .replicate 32 0
  revision := .replicate 32 0
  projectDigest := .replicate 32 0
  epoch := 0

def GuiController.initial : GuiController where
  core := 0
  snapshot := 0
  diff := 0
  snapshotMetadata := zeroSnapshotMetadata
  frameContext := .none
  status := "initializing"
  nextTrackId := 1

structure DiffCallbackState where
  expectedThread : ThreadId
  called : Bool
  sameThread : Bool
  handle : UInt64
  metadataResult : StitchResult
  metadata : StitchDiffMetadata

def kHex : List Char := "0123456789abcdef".toList

def digestPrefix (digest : StitchDigest) : String :=
  String.ofList ((digest.toList.take 4).flatMap fun byte =>
    [kHex.getD (byte >>> 4 : UInt8).toNat '0', kHex.getD (byte &&& 0x0f : UInt8).toNat '0'])

/-! ## calls -/

/-- What a call returns that does not call back. -/
def OwnerReply.result : OwnerReply → StitchResult × Output
  | .returned result output => (result, output)
  | .callback _ _ => (.panic, .none)

def callLibrary (call : OwnerCall) : Gui (StitchResult × Output) := do
  let reply ← invoke call
  pure (OwnerReply.result reply)

/-- The handle behind an output pointer, which is 0 before the call. -/
def outHandle : Output → UInt64
  | .handle handle => handle
  | _ => 0

def outSnapshotMetadata : Output → StitchSnapshotMetadata
  | .snapshotMetadata metadata => metadata
  | _ => zeroSnapshotMetadata

def outDiffMetadata : Output → StitchDiffMetadata
  | .diffMetadata metadata => metadata
  | _ => zeroDiffMetadata

/-- `diffCallback`, on the current thread. -/
def diffCallback (state : DiffCallbackState) (current : ThreadId) (diff : UInt64) :
    Gui DiffCallbackState := do
  let (result, output) ← callLibrary (.diffMetadataGet diff)
  pure { state with
    called := true
    sameThread := current = state.expectedThread
    handle := diff
    metadataResult := result
    metadata := outDiffMetadata output }

/-- `stitch_core_submit` with the callback. -/
def coreSubmit (core : UInt64) (batch : StitchCommandBatch) (state : DiffCallbackState) :
    Gui (DiffCallbackState × StitchResult × Output) := do
  match ← invoke (.submit core batch) with
  | .returned result output => pure (state, result, output)
  | .callback current diff => do
      let state ← diffCallback state current diff
      let (result, output) ← callLibrary .endCallback
      pure (state, result, output)

namespace GuiController

/-! ## snapshots and diffs -/

/-- `fail`, on the thread of the controller. -/
def fail (self : GuiController) (operation : String) (result : StitchResult) :
    Bool × GuiController :=
  (false, { self with
    status := operation ++ " failed (" ++ toString result.toUInt32 ++ ")" })

def publishFrameContext (self : GuiController) (metadata : StitchSnapshotMetadata) :
    GuiController :=
  { self with frameContext := ⟨metadata.revision, metadata.epoch, true⟩ }

def releaseSnapshot (self : GuiController) : Gui GuiController :=
  if self.snapshot = 0 then pure self
  else do
    let _ ← callLibrary (.snapshotRelease self.snapshot)
    pure { self with snapshot := 0 }

def releaseDiff (self : GuiController) : Gui GuiController :=
  if self.diff = 0 then pure self
  else do
    let _ ← callLibrary (.diffRelease self.diff)
    pure { self with diff := 0 }

/-- `refreshSnapshot` from where it has the new metadata. -/
def takeSnapshot (self : GuiController) (publishStatus : Bool) (snapshot : UInt64)
    (metadata : StitchSnapshotMetadata) : Gui (Bool × GuiController) := do
  let self ← self.releaseSnapshot
  let self := { self with snapshot := snapshot, snapshotMetadata := metadata }
  let self := self.publishFrameContext metadata
  pure (true, if publishStatus then
    { self with status := "snapshot " ++ digestPrefix metadata.revision ++ " opened" } else self)

def refreshSnapshot (self : GuiController) (publishStatus : Bool) : Gui (Bool × GuiController) :=
  if self.core = 0 then pure (false, self)
  else do
    let (result, output) ← callLibrary (.snapshot self.core)
    if result ≠ .ok then pure (self.fail "stitch_core_snapshot" result)
    else do
      let nextSnapshot := outHandle output
      let (result, output) ← callLibrary (.snapshotMetadataGet nextSnapshot)
      if result ≠ .ok then do
        let _ ← callLibrary (.snapshotRelease nextSnapshot)
        pure (self.fail "stitch_snapshot_metadata_get" result)
      else self.takeSnapshot publishStatus nextSnapshot (outSnapshotMetadata output)

/-! ## the constructor and the destructor -/

def create : Gui GuiController :=
  let self := initial
  match stitchAbiNegotiate
      (some ⟨header abiNegotiationSize, abiVersion, abiMinorVersion, 0, 0⟩) with
  | .error result => pure (self.fail "stitch_abi_negotiate" result).2
  | .ok negotiation =>
      if negotiation.supportedMajor ≠ abiVersion ∨ negotiation.supportedMinor < abiMinorVersion then
        pure (self.fail "stitch_abi_negotiate" .ok).2
      else do
        let (result, output) ← callLibrary (.create 0)
        let core := outHandle output
        if result ≠ .ok ∨ core = 0 then
          pure { (self.fail "stitch_core_create" result).2 with core := 0 }
        else pure { self with
          core := core
          status := "ABI " ++ toString negotiation.supportedMajor ++ "." ++
            toString negotiation.supportedMinor ++ " ready" }

def destroy (self : GuiController) : Gui GuiController := do
  let self ← self.releaseDiff
  let self ← self.releaseSnapshot
  if self.core = 0 then pure self
  else do
    let _ ← callLibrary (.destroy self.core)
    pure { self with core := 0 }

/-! ## slots -/

def isReady (self : GuiController) : Bool := self.core ≠ 0

def openSnapshot (self : GuiController) : Gui (Bool × GuiController) := self.refreshSnapshot true

/-- The id of the demo track: its number in little endian, and a mark. -/
def demoTrackId (number : UInt64) : StitchId :=
  .ofFn fun byte =>
    if byte.val < 8 then (number >>> UInt64.ofNat (byte.val * 8)).toUInt8
    else if byte.val = 15 then 0x54 else 0

/-- The batch that adds the demo track on top of the snapshot. -/
def demoBatch (number : UInt64) (snapshot : StitchSnapshotMetadata) : StitchCommandBatch where
  header := header commandBatchSize
  commands := some [.blank 2 (demoTrackId number)]
  commandCount := 1
  reserved := 0
  expectedRevision := snapshot.revision
  epoch := snapshot.epoch

/-- `submitDemoBatch` from where the batch has been submitted. -/
def takeDiff (self : GuiController) (number diff : UInt64) (metadata : StitchDiffMetadata) :
    Gui (Bool × GuiController) := do
  let self ← self.releaseDiff
  let (refreshed, self) ← { self with diff := diff }.refreshSnapshot false
  if refreshed = false then pure (false, self)
  else if self.snapshotMetadata.revision ≠ metadata.revision ∨
      self.snapshotMetadata.projectDigest ≠ metadata.projectDigest then
    pure (false, { self with status := "snapshot and diff metadata diverged" })
  else pure (true, { self with
    status := "track " ++ toString number ++ " committed at " ++
      digestPrefix self.snapshotMetadata.revision })

def submitDemoBatch (self : GuiController) (thread : ThreadId) : Gui (Bool × GuiController) :=
  if self.core = 0 ∨ self.snapshot = 0 then
    pure (false, { self with status := "open a snapshot before editing" })
  else do
    let number := self.nextTrackId
    let self := { self with nextTrackId := number + 1 }
    let (state, result, output) ← coreSubmit self.core (demoBatch number self.snapshotMetadata)
      ⟨thread, false, false, 0, .panic, zeroDiffMetadata⟩
    let nextDiff := outHandle output
    if result ≠ .ok then pure (self.fail "stitch_core_submit" result)
    else if state.called = false ∨ state.sameThread = false ∨ state.metadataResult ≠ .ok ∨
        state.handle ≠ nextDiff ∨ nextDiff = 0 then do
      if nextDiff ≠ 0 then
        let _ ← callLibrary (.diffRelease nextDiff)
      pure (false, { self with status := "synchronous ABI diff callback contract failed" })
    else self.takeDiff number nextDiff state.metadata

def cancelEpoch (self : GuiController) : Gui (Bool × GuiController) :=
  if self.core = 0 then pure (false, self)
  else if self.frameContext.valid = false ∨ self.frameContext.epoch = 0xffffffffffffffff then
    pure (false, { self with status := "cannot advance cancellation epoch" })
  else do
    let next := self.frameContext.epoch + 1
    let (result, _) ← callLibrary (.setEpoch self.core next)
    if result ≠ .ok then pure (self.fail "stitch_core_set_epoch" result)
    else do
      let (refreshed, self) ← self.refreshSnapshot false
      if refreshed = false then pure (false, self)
      else pure (true, { self with
        status := "preview epoch " ++ toString next ++ " cancelled" })

/-! ## what a user does -/

inductive Gesture where
  | openSnapshot
  | submitDemoBatch
  | cancelEpoch
  deriving DecidableEq

def perform (self : GuiController) (thread : ThreadId) : Gesture → Gui (Bool × GuiController)
  | .openSnapshot => self.openSnapshot
  | .submitDemoBatch => self.submitDemoBatch thread
  | .cancelEpoch => self.cancelEpoch

/-- What can be seen of the controller: what the last slot returned, and its
`status()`, `isReady()` and `frameContext()`. -/
structure Observation where
  accepted : Bool
  status : String
  ready : Bool
  frameContext : FrameContext
  deriving DecidableEq

def observe (self : GuiController) (accepted : Bool) : Observation :=
  ⟨accepted, self.status, self.isReady, self.frameContext⟩

/-- The gestures one after the other. -/
def performAll (thread : ThreadId) : List Gesture → GuiController →
    Gui (List Observation × GuiController)
  | [], self => pure ([], self)
  | gesture :: gestures, self => do
      let (accepted, self) ← self.perform thread gesture
      let (observations, self') ← performAll thread gestures self
      pure (self.observe accepted :: observations, self')

end GuiController

/-- The life of a controller, with what could be seen of it. -/
structure Visit where
  gestures : List GuiController.Gesture
  observations : List GuiController.Observation

/-- A controller is created, used and destroyed. -/
def Visit.program (thread : ThreadId) (gestures : List GuiController.Gesture) : Gui Visit := do
  let self ← GuiController.create
  let (observations, self') ← GuiController.performAll thread gestures self
  let _ ← self'.destroy
  pure ⟨gestures, self.observe true :: observations⟩

end StitchEditor.Desktop
