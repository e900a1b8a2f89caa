import Mathlib
import StitchEditor.Desktop.Controller

/-!
# StitchEditor.Desktop.Preview

The preview of the desktop shell on Qt's scene graph: `PreviewNode`,
`CompletionMailbox` and `PreviewItem`, with what Qt and Metal do around them.

Qt syncs the item when it is dirty and renders frame after frame, each into a
command buffer of its own.  The GPU finishes the buffers in the order in
which they were committed, and a completion handler runs at some time after
its buffer has finished.
-/

namespace StitchEditor.Desktop

open StitchEditor Abi

/-! ## data -/

/-- What is observed of the leases and the GPU.  Nodes and command buffers
are numbered; a node submits one lease at most. -/
inductive Happening where
  | lease (node : Nat) (state : LeaseState)
  | drew (node buffer : Nat)
  | finished (buffer : Nat)
  | destroyed (node : Nat)
  deriving DecidableEq

/-- The signals of the item. -/
inductive Signal where
  | leaseSubmitted (lease epoch : UInt64)
  | leaseRetired (lease : UInt64)
  | lifecycleFailed (message : String)
  | sceneGraphTeardownObserved
  deriving DecidableEq

/-- `CompletionMailbox`: a completed lease, or 0. -/
structure CompletionMailbox where
  completed : UInt64
  deriving DecidableEq

namespace CompletionMailbox

def enqueue (self : CompletionMailbox) (lease : UInt64) : CompletionMailbox :=
  if self.completed = 0 then ⟨lease⟩ else self

def take (self : CompletionMailbox) (lease : UInt64) : Bool × CompletionMailbox :=
  if self.completed = lease then (true, ⟨0⟩) else (false, self)

def discard (self : CompletionMailbox) (lease : UInt64) : CompletionMailbox := (self.take lease).2

end CompletionMailbox

/-! ## the node -/

/-- A node of the scene graph; the textures and the visual child are there or
not.  `serial` is its number. -/
structure PreviewNode where
  serial : Nat
  deviceGeneration : UInt64
  lease : UInt64 := 0
  frameContext : FrameContext := .none
  valid : Bool := false
  acquired : Bool := false
  submitted : Bool := false
  completionAttached : Bool := false
  detachRequested : Bool := false
  detached : Bool := false
  retired : Bool := false
  failed : Bool := false
  failureMessage : String := ""
  visual : Bool := false
  texture : Bool := false
  textureWrapper : Bool := false
  commandBuffer : Option Nat := none
  deriving DecidableEq

namespace PreviewNode

def detachVisual (self : PreviewNode) : PreviewNode :=
  if self.visual then { self with visual := false, detached := true } else self

def fail (self : PreviewNode) (message : String) : PreviewNode :=
  { self with valid := false, failed := true, failureMessage := message }

def failAfterSubmit (self : PreviewNode) (reason : String) : PreviewNode :=
  { self with detachRequested := true }.fail reason

def releaseNativeObjects (self : PreviewNode) : PreviewNode :=
  { self.detachVisual with textureWrapper := false, texture := false, commandBuffer := none }

/-- `attachCompletion`, with whether the buffer's queue is on the device of
the texture; a handler is added for `true`. -/
def attachCompletion (self : PreviewNode) (buffer : Nat) (sameDevice : Bool) :
    Bool × PreviewNode :=
  if !self.valid || self.failed || self.completionAttached then (false, self)
  else if !sameDevice then (false, self.fail "Metal command buffer device mismatch")
  else (true, { self with
    commandBuffer := some buffer, completionAttached := true, detachRequested := true })

end PreviewNode

/-! ## the preview -/

/-- What `updatePaintNode` and the constructor of a node find when they ask
Qt, Metal and the library. -/
structure Graphics where
  /-- The scene graph of the window is Metal's. -/
  metal : Bool
  /-- Its `DeviceResource` is the expected device. -/
  expectedDevice : Bool
  /-- The texture is created, on the device. -/
  texture : Bool
  /-- Qt wraps the texture. -/
  wrapper : Bool
  /-- The wrapper names the texture as its own. -/
  nativeTexture : Bool
  /-- The handle that the library takes for a lease. -/
  handle : UInt64
  deriving DecidableEq

/-- The `CommandListResource` of a frame. -/
inductive CommandList where
  | unavailable
  | available (sameDevice : Bool)
  deriving DecidableEq

structure Preview where
  controller : EditorController
  nextBridgeToken : UInt64
  -- the item
  mailbox : CompletionMailbox
  renderNode : Bool
  lastContext : FrameContext
  deviceGeneration : UInt64
  pumpActive : Bool
  timerActive : Bool
  selfTestMode : Bool
  selfTestGenerationDone : Bool
  signals : List Signal
  -- Qt: the item's node, whether `update` was called, the render thread
  node : Option PreviewNode
  dirty : Bool
  renderThread : ThreadId
  -- Metal: buffers committed and finished, handlers with their buffers
  committed : Nat
  finished : Nat
  handlers : List (Nat × UInt64)
  -- bookkeeping
  nodes : Nat
  trace : List Happening
  deriving DecidableEq

namespace Preview

/-- The preview after `setController`. -/
def start (controller : EditorController) (renderThread : ThreadId) : Preview where
  controller := controller
  nextBridgeToken := 1
  mailbox := ⟨0⟩
  renderNode := false
  lastContext := .none
  deviceGeneration := 1
  pumpActive := true
  timerActive := true
  selfTestMode := false
  selfTestGenerationDone := false
  signals := []
  node := none
  dirty := true
  renderThread := renderThread
  committed := 0
  finished := 0
  handlers := []
  nodes := 0
  trace := []

def queueFailure (self : Preview) (message : String) : Preview :=
  { self with signals := self.signals ++ [.lifecycleFailed message] }

/-! ## the life of a node -/

/-- `completeAndRetireFrame` for the lease of a node. -/
def completeAndRetireFrame (self : Preview) (node : PreviewNode) : Bool × Preview :=
  let (states, controller) :=
    self.controller.completeAndRetireFrame self.renderThread node.deviceGeneration node.lease
  (states = [.completed, .retired], { self with
    controller := controller, trace := self.trace ++ states.map (.lease node.serial) })

/-- The handlers of a buffer run. -/
def runHandlers (self : Preview) (buffer : Nat) : Preview :=
  { self with
    mailbox := (self.handlers.filter (·.1 = buffer)).foldl (fun m h => m.enqueue h.2) self.mailbox
    handlers := self.handlers.filter (·.1 ≠ buffer) }

/-- `waitUntilCompleted`, unless there is no buffer: it finishes after those
before it, and its handlers run. -/
def waitUntilCompleted (self : Preview) : Option Nat → Preview
  | none => self
  | some buffer =>
      let passed := List.range' self.finished (buffer + 1 - self.finished)
      { self with
        finished := max self.finished (buffer + 1)
        trace := self.trace ++ passed.map Happening.finished }.runHandlers buffer

/-- `~PreviewNode`. -/
def delete (self : Preview) (node : PreviewNode) : Preview :=
  let node := node.detachVisual
  let self :=
    if node.submitted && !node.retired && node.lease != 0 then
      ((self.waitUntilCompleted node.commandBuffer).completeAndRetireFrame node).2
    else if node.acquired && node.lease != 0 then
      { self with
        controller :=
          self.controller.discardFrame self.renderThread node.deviceGeneration node.lease }
    else self
  { self with
    mailbox := self.mailbox.discard node.lease
    trace := self.trace ++ [.destroyed node.serial] }

def drainCompletedLease (self : Preview) (node : PreviewNode) : Bool × PreviewNode × Preview :=
  if !node.submitted || !node.detached || node.retired then (false, node, self)
  else match self.mailbox.take node.lease with
    | (false, _) => (false, node, self)
    | (true, mailbox) =>
        match { self with mailbox := mailbox }.completeAndRetireFrame node with
        | (false, self) => (false, node.fail "frame lease completion/retirement failed", self)
        | (true, self) => (true, { node with retired := true }.releaseNativeObjects, self)

/-- The constructor of `PreviewNode`. -/
def create (self : Preview) (graphics : Graphics) : PreviewNode × Preview :=
  let node : PreviewNode := { serial := self.nodes, deviceGeneration := self.deviceGeneration }
  let self := { self with nodes := self.nodes + 1 }
  if !graphics.texture then (node.fail "same-device Metal texture creation failed", self)
  else
    let node := { node with texture := true }
    if !graphics.wrapper then
      ((node.fail "Qt rejected the external Metal texture").releaseNativeObjects, self)
    else
      let node := { node with textureWrapper := true }
      if !graphics.nativeTexture then
        ((node.fail "Qt external texture identity mismatch").releaseNativeObjects, self)
      else
        let node := { node with visual := true }
        let surfaceToken := self.nextBridgeToken
        let synchronizationToken := self.nextBridgeToken + 1
        let self := { self with nextBridgeToken := self.nextBridgeToken + 2 }
        match self.controller.registerAcquireFrame self.renderThread graphics.handle
            node.deviceGeneration surfaceToken synchronizationToken 2 2 with
        | (none, controller) =>
            ((node.fail "frame lease register/acquire failed").releaseNativeObjects,
              { self with controller := controller })
        | (some (lease, context), controller) =>
            match controller.submitFrame self.renderThread node.deviceGeneration lease with
            | (false, controller) =>
                (({ node with frameContext := context }.fail
                    "frame lease submit failed").releaseNativeObjects,
                  { self with controller := controller })
            | (true, controller) =>
                ({ node with
                    lease := lease, frameContext := context, submitted := true, valid := true },
                  { self with
                    controller := controller
                    trace := self.trace ++ [.lease node.serial .submitted] })

/-! ## the item -/

/-- `updatePaintNode` with the node that it has returned before. -/
def updateNode (self : Preview) (node : PreviewNode) : Preview :=
  let node := if node.detachRequested then node.detachVisual else node
  match self.drainCompletedLease node with
  | (true, node, self) =>
      let self := self.delete node
      { self with
        node := none
        renderNode := false
        lastContext := node.frameContext
        selfTestGenerationDone := self.selfTestMode
        pumpActive := false
        signals := self.signals ++ [.leaseRetired node.lease] }
  | (false, node, self) =>
      if node.failed then
        { self.delete node with
          node := none, renderNode := false, pumpActive := false }.queueFailure node.failureMessage
      else { self with node := some node, renderNode := true }

/-- `updatePaintNode` without a node. -/
def newNode (self : Preview) (graphics : Graphics) : Preview :=
  let self := { self with renderNode := false }
  let context := self.controller.frameContext
  if self.selfTestGenerationDone || !context.valid then self
  else if self.lastContext.valid && context.epoch == self.lastContext.epoch &&
      context.revision == self.lastContext.revision then
    { self with pumpActive := false }
  else if !graphics.metal then
    { self with pumpActive := false }.queueFailure "Metal scene graph is unavailable"
  else if !graphics.expectedDevice then
    { self with pumpActive := false }.queueFailure "Qt Metal DeviceResource identity mismatch"
  else
    let (node, self) := self.create graphics
    if !node.valid then
      { self.delete node with pumpActive := false }.queueFailure node.failureMessage
    else
      { self with
        node := some node
        renderNode := true
        pumpActive := true
        signals := self.signals ++ [.leaseSubmitted node.lease node.frameContext.epoch] }

def updatePaintNode (self : Preview) (graphics : Graphics) : Preview :=
  match self.node with
  | some node => self.updateNode node
  | none => self.newNode graphics

/-- `onAfterRendering`, while the next buffer is encoded. -/
def onAfterRendering (self : Preview) (list : CommandList) : Preview :=
  match self.node with
  | none => self
  | some node =>
      if !self.renderNode || node.completionAttached || node.failed then self
      else match list with
        | .unavailable =>
            { self with
              node := some
                (node.failAfterSubmit "Qt Metal CommandListResource is unavailable") }
        | .available sameDevice =>
            let (attached, node) := node.attachCompletion self.committed sameDevice
            { self with
              node := some node
              handlers := self.handlers ++
                if attached then [(self.committed, node.lease)] else [] }

/-- The visual child of a node is drawn into the next buffer. -/
def draw (self : Preview) : Preview :=
  match self.node with
  | none => self
  | some node =>
      if node.visual then
        { self with trace := self.trace ++ [.drew node.serial self.committed] }
      else self

/-- The handler of `sceneGraphInvalidated`. -/
def onInvalidated (self : Preview) : Preview :=
  { self with
    renderNode := false
    deviceGeneration := self.deviceGeneration + 1
    lastContext := .none
    selfTestGenerationDone := false
    pumpActive := true
    signals := self.signals ++ [.sceneGraphTeardownObserved] }

/-! ## steps -/

/-- What happens on the GUI thread, the render thread and the GPU. -/
inductive Event where
  | edit (history : EditorHistory) (epoch : UInt64)
  | publish
  | update
  | tick
  | selfTestMode (enabled : Bool)
  | sync (graphics : Graphics)
  | render (list : CommandList)
  | finish
  | notify (buffer : Nat)
  | teardown (next : ThreadId)
  deriving DecidableEq

/-- One step; `none` where it cannot happen. -/
def step (self : Preview) : Event → Option Preview
  | .edit history epoch => some { self with controller := self.controller.edit history epoch }
  | .publish => some { self with
      controller := self.controller.refreshSnapshot
      pumpActive := true
      timerActive := true
      dirty := true }
  | .update => some { self with dirty := true }
  | .tick =>
      if !self.timerActive then none
      else if self.pumpActive then some { self with dirty := true }
      else some { self with timerActive := false }
  | .selfTestMode enabled => some { self with selfTestMode := enabled }
  | .sync graphics =>
      if self.dirty then some ({ self with dirty := false }.updatePaintNode graphics) else none
  | .render list =>
      let self := self.draw.onAfterRendering list
      some { self with committed := self.committed + 1 }
  | .finish =>
      if self.finished < self.committed then
        some { self with
          finished := self.finished + 1, trace := self.trace ++ [.finished self.finished] }
      else none
  | .notify buffer => if buffer < self.finished then some (self.runHandlers buffer) else none
  | .teardown next =>
      let self := match self.node with
        | none => self
        | some node => { self.delete node with node := none }
      some { self.onInvalidated with renderThread := next }

def run (self : Preview) (events : List Event) : Option Preview := events.foldlM step self

end Preview

end StitchEditor.Desktop
