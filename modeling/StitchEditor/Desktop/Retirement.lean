import Mathlib
import StitchEditor.Desktop.Preview

/-!
# StitchEditor.Desktop.Retirement

When the leases of the preview are completed and retired, over every run.

A node is served from the submission of its lease until it is deleted; its
deletion completes and retires the lease, so that this happens once.  One
command buffer is tracked for a node, and its completion is on the way in a
handler or in the mailbox: the buffer that is tracked has finished when the
lease is completed, but a texture may be drawn into others.
-/

namespace StitchEditor.Desktop

open StitchEditor Abi

/-! ## what a trace tells of a node -/

/-- The node that it is about. -/
def Happening.node : Happening → Option Nat
  | .lease node _ | .drew node _ | .destroyed node => some node
  | .finished _ => none

/-- The lease of the node is completed and retired at most once, and retired
before the node is destroyed. -/
structure RetiredOnce (trace : List Happening) (node : Nat) : Prop where
  completed : trace.count (.lease node .completed) ≤ 1
  retired : trace.count (.lease node .retired) ≤ 1
  destroyed : .lease node .submitted ∈ trace → .destroyed node ∈ trace →
    [.lease node .retired, .destroyed node].Sublist trace

/-- The buffers in which the texture of the node is drawn have finished
before its lease is completed. -/
def FinishedFirst (trace : List Happening) (node : Nat) : Prop :=
  ∀ buffer, .drew node buffer ∈ trace → .lease node .completed ∈ trace →
    [.finished buffer, .lease node .completed].Sublist trace

/-- The trace has come to the end of the node. -/
structure Told (P : Prop) (trace : List Happening) (node : Nat) : Prop extends
    RetiredOnce trace node where
  finishedFirst : P → FinishedFirst trace node

variable {P : Prop} {trace more : List Happening} {n : Nat}

theorem count_append_of_node_ne {x : Happening} (hx : x.node = some n)
    (hmore : ∀ y ∈ more, y.node ≠ some n) : (trace ++ more).count x = trace.count x := by
  have hnot : x ∉ more := fun hmem => hmore x hmem hx
  rw [List.count_append, List.count_eq_zero_of_not_mem hnot, Nat.add_zero]

theorem mem_append_of_node_ne {x : Happening} (hx : x.node = some n)
    (hmore : ∀ y ∈ more, y.node ≠ some n) : x ∈ trace ++ more ↔ x ∈ trace := by
  have hnot : x ∉ more := fun hmem => hmore x hmem hx
  simp [hnot]

/-- Nothing more is told of the node. -/
theorem Told.append (h : Told P trace n) (hmore : ∀ y ∈ more, y.node ≠ some n) :
    Told P (trace ++ more) n where
  completed := by
    rw [count_append_of_node_ne rfl hmore]
    exact h.completed
  retired := by
    rw [count_append_of_node_ne rfl hmore]
    exact h.retired
  destroyed hsubmitted hdestroyed := by
    rw [mem_append_of_node_ne rfl hmore] at hsubmitted hdestroyed
    exact (h.destroyed hsubmitted hdestroyed).trans (List.sublist_append_left _ _)
  finishedFirst hP buffer hdrew hcompleted := by
    rw [mem_append_of_node_ne rfl hmore] at hdrew hcompleted
    exact (h.finishedFirst hP buffer hdrew hcompleted).trans (List.sublist_append_left _ _)

/-- Neither the end of a node nor that of its lease is in the trace. -/
structure Open (trace : List Happening) (node : Nat) : Prop where
  completed : .lease node .completed ∉ trace
  retired : .lease node .retired ∉ trace
  destroyed : .destroyed node ∉ trace

theorem Open.of_unseen (h : ∀ x ∈ trace, x.node ≠ some n) : Open trace n where
  completed hmem := h _ hmem rfl
  retired hmem := h _ hmem rfl
  destroyed hmem := h _ hmem rfl

theorem Open.append (h : Open trace n) (hmore : Open more n) : Open (trace ++ more) n where
  completed hmem := (List.mem_append.mp hmem).elim h.completed hmore.completed
  retired hmem := (List.mem_append.mp hmem).elim h.retired hmore.retired
  destroyed hmem := (List.mem_append.mp hmem).elim h.destroyed hmore.destroyed

/-- A node that was never submitted is destroyed. -/
theorem Open.destroy (h : Open trace n) (hsubmitted : .lease n .submitted ∉ trace) :
    Told P (trace ++ [.destroyed n]) n where
  completed := by simp [List.count_eq_zero_of_not_mem h.completed]
  retired := by simp [List.count_eq_zero_of_not_mem h.retired]
  destroyed hmem _ := by simp [hsubmitted] at hmem
  finishedFirst _ _ _ hmem := by simp [h.completed] at hmem

/-- The lease is completed and retired, and the node destroyed. -/
theorem Open.close (h : Open trace n)
    (hdrawn : P → ∀ buffer, .drew n buffer ∈ trace → .finished buffer ∈ trace) :
    Told P (trace ++ [.lease n .completed, .lease n .retired, .destroyed n]) n where
  completed := by simp [List.count_eq_zero_of_not_mem h.completed]
  retired := by simp [List.count_eq_zero_of_not_mem h.retired]
  destroyed _ _ := by
    refine List.Sublist.trans ?_ (List.sublist_append_right trace _)
    simp
  finishedFirst hP buffer hdrew _ := by
    have hmem : .drew n buffer ∈ trace := by simpa using hdrew
    exact (List.singleton_sublist.mpr (hdrawn hP buffer hmem)).append (by simp)

/-! ## the invariant -/

@[simp] theorem CompletionMailbox.discard_zero (lease : UInt64) :
    discard ⟨0⟩ lease = ⟨0⟩ := by
  unfold discard take
  split <;> rfl

@[simp] theorem CompletionMailbox.discard_self (lease : UInt64) :
    discard ⟨lease⟩ lease = ⟨0⟩ := by
  simp [discard, take]

namespace Preview

/-- Where the completion of the tracked buffer is: nowhere as long as none
is, else with its handler or in the mailbox. -/
def Awaits (self : Preview) (node : PreviewNode) : Prop :=
  match node.commandBuffer with
  | none => self.handlers = [] ∧ self.mailbox = ⟨0⟩
  | some buffer => buffer < self.committed ∧
      (self.handlers = [(buffer, node.lease)] ∧ self.mailbox = ⟨0⟩ ∨
        self.handlers = [] ∧ self.mailbox = ⟨node.lease⟩ ∧ buffer < self.finished)

/-- The node holds a submitted lease, which it is yet to complete. -/
structure Serves (P : Prop) (preview : Preview) (node : PreviewNode) : Prop where
  valid : node.valid = !node.failed
  submitted : node.submitted = true
  retired : node.retired = false
  lease : node.lease ≠ 0
  attached : node.completionAttached = node.commandBuffer.isSome
  holds : preview.controller.Holds preview.renderThread node.deviceGeneration node.lease .submitted
  awaits : preview.Awaits node
  numbered : node.serial < preview.nodes
  isOpen : Open preview.trace node.serial
  drawn : P → ∀ buffer, .drew node.serial buffer ∈ preview.trace → node.commandBuffer = some buffer

/-- What every step of a preview keeps; `P` for a run in which no frame draws
into a buffer that is not tracked. -/
structure Sound (P : Prop) (preview : Preview) : Prop where
  finished_le : preview.finished ≤ preview.committed
  finished_iff : ∀ buffer, .finished buffer ∈ preview.trace ↔ buffer < preview.finished
  numbered : ∀ x ∈ preview.trace, ∀ n, x.node = some n → n < preview.nodes
  renderNode : preview.renderNode = preview.node.isSome
  told : ∀ n, (∀ node, preview.node = some node → node.serial ≠ n) → Told P preview.trace n
  serves : ∀ node, preview.node = some node → preview.Serves P node
  idle : preview.node = none → preview.handlers = [] ∧ preview.mailbox = ⟨0⟩

theorem sound_start (controller : EditorController) (renderThread : ThreadId) :
    (start controller renderThread).Sound P where
  finished_le := Nat.le_refl _
  finished_iff buffer := by simp [start]
  numbered x hx := by simp [start] at hx
  renderNode := rfl
  told n _ := {
    completed := Nat.zero_le _
    retired := Nat.zero_le _
    destroyed hmem := by simp [start] at hmem
    finishedFirst _ _ hmem := by simp [start] at hmem }
  serves node hnode := by simp [start] at hnode
  idle _ := ⟨rfl, rfl⟩

variable {self next : Preview} {node : PreviewNode} {buffer : Nat}

/-! ## the end of a node -/

theorem completeAndRetireFrame_eq (self : Preview)
    (h : self.controller.Holds self.renderThread node.deviceGeneration node.lease .submitted)
    (hlease : node.lease ≠ 0) :
    ∃ controller, self.completeAndRetireFrame node = (true, { self with
      controller := controller
      trace := self.trace ++ [.lease node.serial .completed, .lease node.serial .retired] }) := by
  have hstates := h.completeAndRetireFrame hlease
  refine ⟨(self.controller.completeAndRetireFrame self.renderThread node.deviceGeneration
    node.lease).2, ?_⟩
  simp only [completeAndRetireFrame, hstates, decide_true, List.map_cons, List.map_nil]

/-- A wait returns when the tracked buffer has finished and its completion is
in the mailbox. -/
theorem waitUntilCompleted_eq (hle : self.finished ≤ self.committed) (h : self.Awaits node) :
    ∃ passed finished mailbox, self.waitUntilCompleted node.commandBuffer = { self with
      mailbox := mailbox
      handlers := []
      finished := finished
      trace := self.trace ++ List.map .finished passed } ∧
      (∀ b, b ∈ passed ↔ self.finished ≤ b ∧ b < finished) ∧
      (self.finished ≤ finished ∧ finished ≤ self.committed) ∧
      (∀ b, node.commandBuffer = some b → b < finished) ∧
      (mailbox = ⟨0⟩ ∨ mailbox = ⟨node.lease⟩) := by
  cases hbuffer : node.commandBuffer with
  | none =>
      obtain ⟨hhandlers, hmailbox⟩ : self.handlers = [] ∧ self.mailbox = ⟨0⟩ := by
        simpa [Awaits, hbuffer] using h
      refine ⟨[], self.finished, self.mailbox, ?_, ?_, ⟨Nat.le_refl _, hle⟩, nofun, .inl hmailbox⟩
      · simp [waitUntilCompleted, ← hhandlers]
      · intro b
        simp only [List.not_mem_nil, false_iff]
        omega
  | some buffer =>
      simp only [Awaits, hbuffer] at h
      obtain ⟨hlt, hpending⟩ := h
      refine ⟨List.range' self.finished (buffer + 1 - self.finished),
        max self.finished (buffer + 1), ⟨node.lease⟩, ?_, ?_, ?_, ?_, .inr rfl⟩
      · obtain ⟨hhandlers, hmailbox⟩ | ⟨hhandlers, hmailbox, -⟩ := hpending
        · simp [waitUntilCompleted, runHandlers, hhandlers, hmailbox, CompletionMailbox.enqueue]
        · simp [waitUntilCompleted, runHandlers, hhandlers, hmailbox]
      · intro b
        rw [List.mem_range'_1]
        omega
      · omega
      · intro b hb
        have hb := Option.some.inj hb
        omega

/-- The node is deleted and its lease retired, after the buffer that is
tracked has finished. -/
structure Closes (preview : Preview) (node : PreviewNode) (next : Preview) : Prop where
  trace : ∃ passed : List Nat, next.trace = preview.trace ++ passed.map .finished ++
    [.lease node.serial .completed, .lease node.serial .retired, .destroyed node.serial]
  finished_le : next.finished ≤ next.committed
  finished_iff : ∀ b, .finished b ∈ next.trace ↔ b < next.finished
  tracked : ∀ b, node.commandBuffer = some b → b < next.finished
  nodes : next.nodes = preview.nodes
  renderNode : next.renderNode = false
  node : next.node = none
  idle : next.handlers = [] ∧ next.mailbox = ⟨0⟩

/-- A node that is served ends well. -/
theorem Sound.closes (h : self.Sound P) (hserves : self.Serves P node)
    (hkept : ∀ kept, self.node = some kept → kept.serial = node.serial)
    (hcloses : self.Closes node next) : next.Sound P := by
  obtain ⟨passed, htrace⟩ := hcloses.trace
  have hpassed : ∀ n, ∀ y ∈ passed.map Happening.finished, y.node ≠ some n := by
    simp [Happening.node]
  refine ⟨hcloses.finished_le, hcloses.finished_iff, ?numbered, ?renderNode, ?told, ?serves,
    fun _ => hcloses.idle⟩
  case numbered =>
    intro x hx n hn
    rw [hcloses.nodes]
    rw [htrace, List.append_assoc, List.mem_append] at hx
    rcases hx with hx | hx
    · exact h.numbered x hx n hn
    · have hserial : n = node.serial := by
        simp only [List.mem_append, List.mem_map, List.mem_cons, List.not_mem_nil, or_false] at hx
        rcases hx with ⟨b, -, rfl⟩ | rfl | rfl | rfl <;> simp_all [Happening.node]
      exact hserial ▸ hserves.numbered
  case renderNode => simp [hcloses.renderNode, hcloses.node]
  case serves => simp [hcloses.node]
  case told =>
    intro n _
    rw [htrace]
    by_cases hn : node.serial = n
    · subst hn
      refine Open.close (hserves.isOpen.append (.of_unseen (hpassed _))) fun hP b hdrew => ?_
      rw [mem_append_of_node_ne rfl (hpassed _)] at hdrew
      have hlt := hcloses.tracked b (hserves.drawn hP b hdrew)
      simpa [htrace] using (hcloses.finished_iff b).mpr hlt
    · refine Told.append (.append (h.told n fun kept hkeep => ?_) (hpassed n)) ?_
      · exact hkept kept hkeep ▸ hn
      · simp [Happening.node, hn]

theorem detachVisual_eq (node : PreviewNode) : ∃ detached,
    node.detachVisual = { node with visual := false, detached := detached } := by
  unfold PreviewNode.detachVisual
  by_cases hvisual : node.visual
  · exact ⟨true, if_pos hvisual⟩
  · refine ⟨node.detached, ?_⟩
    rw [if_neg hvisual]
    cases node
    simp_all

/-- Without its visual child the node is served as before. -/
theorem Serves.detachVisual (h : self.Serves P node) : self.Serves P node.detachVisual := by
  obtain ⟨detached, hnode⟩ := detachVisual_eq node
  rw [hnode]
  exact { h with }

/-- What the destructor does with a lease that is not retired yet. -/
theorem delete_eq (hsubmitted : node.submitted = true) (hretired : node.retired = false)
    (hlease : node.lease ≠ 0) {retired : Preview}
    (hretire : (self.waitUntilCompleted node.commandBuffer).completeAndRetireFrame node =
      (true, retired)) :
    self.delete node = { retired with
      mailbox := retired.mailbox.discard node.lease
      trace := retired.trace ++ [.destroyed node.serial] } := by
  obtain ⟨detached, hnode⟩ := detachVisual_eq node
  have hretires : (node.detachVisual.submitted && !node.detachVisual.retired &&
      node.detachVisual.lease != 0) = true := by
    simp [hnode, hsubmitted, hretired, hlease]
  have hdone : (self.waitUntilCompleted node.detachVisual.commandBuffer).completeAndRetireFrame
      node.detachVisual = (true, retired) := by
    rw [hnode]
    exact hretire
  simp only [Preview.delete, hretires, hdone, if_true]
  simp [hnode]

/-- The destructor waits for the buffer that is tracked. -/
theorem Sound.delete (h : self.Sound P) (hserves : self.Serves P node) :
    self.Closes node { self.delete node with node := none, renderNode := false } := by
  obtain ⟨passed, finished, mailbox, hwait, hpassed, ⟨hle, hcommitted⟩, htracked, hmailbox⟩ :=
    waitUntilCompleted_eq h.finished_le hserves.awaits
  have hdiscard : mailbox.discard node.lease = ⟨0⟩ := by
    rcases hmailbox with rfl | rfl <;> simp
  have hholds : (self.waitUntilCompleted node.commandBuffer).controller.Holds
      (self.waitUntilCompleted node.commandBuffer).renderThread node.deviceGeneration node.lease
      .submitted := by
    rw [hwait]
    exact hserves.holds
  obtain ⟨controller, hretire⟩ := completeAndRetireFrame_eq _ hholds hserves.lease
  rw [delete_eq hserves.submitted hserves.retired hserves.lease hretire, hwait]
  refine ⟨⟨passed, by simp⟩, hcommitted, fun b => ?_, htracked, rfl, rfl, rfl, rfl, hdiscard⟩
  have hfinished := h.finished_iff b
  have hpassed := hpassed b
  simp only [List.mem_append, List.mem_map, Happening.finished.injEq, exists_eq_right]
  grind

/-- Any other lease is left alone or discarded. -/
theorem delete_eq_of_idle (self : Preview) (node : PreviewNode)
    (h : (node.submitted && !node.retired) = false) :
    ∃ controller, self.delete node = { self with
      controller := controller
      mailbox := self.mailbox.discard node.lease
      trace := self.trace ++ [.destroyed node.serial] } := by
  obtain ⟨detached, hnode⟩ := detachVisual_eq node
  simp only [Preview.delete, hnode, h, Bool.false_and, Bool.false_eq_true, if_false]
  by_cases hacquired : (node.acquired && node.lease != 0) = true
  · exact ⟨_, by rw [if_pos hacquired]⟩
  · exact ⟨_, by rw [if_neg hacquired]⟩

/-- What a drain does: nothing, or it completes and retires the lease whose
completion is in the mailbox. -/
theorem Serves.drainCompletedLease (h : self.Serves P node) :
    self.drainCompletedLease node = (false, node, self) ∨
      ∃ buffer controller, node.commandBuffer = some buffer ∧ buffer < self.finished ∧
        self.handlers = [] ∧
        self.drainCompletedLease node = (true, { node with retired := true }.releaseNativeObjects,
          { self with
            controller := controller
            mailbox := ⟨0⟩
            trace := self.trace ++
              [.lease node.serial .completed, .lease node.serial .retired] }) := by
  unfold Preview.drainCompletedLease
  by_cases hdetached : node.detached
  swap
  · simp [hdetached]
  by_cases hmail : self.mailbox = ⟨node.lease⟩
  swap
  · left
    have hmail : self.mailbox.completed ≠ node.lease := fun heq => hmail (heq ▸ rfl)
    simp [CompletionMailbox.take, hmail]
  · right
    have hawaits := h.awaits
    cases hbuffer : node.commandBuffer with
    | none => simp [Awaits, hbuffer, hmail, h.lease] at hawaits
    | some buffer =>
        simp only [Awaits, hbuffer] at hawaits
        obtain ⟨hhandlers, hlt⟩ : self.handlers = [] ∧ buffer < self.finished := by
          simpa [hmail, h.lease] using hawaits.2
        obtain ⟨controller, hretire⟩ := completeAndRetireFrame_eq
          { self with mailbox := ⟨0⟩ } h.holds h.lease
        refine ⟨buffer, controller, rfl, hlt, hhandlers, ?_⟩
        simp only [h.submitted, hdetached, h.retired, hmail, CompletionMailbox.take, if_true,
          hretire]
        simp

/-- The node stays, with other flags. -/
theorem Sound.keep (h : self.Sound P) (hnode : self.node = some node) {node' : PreviewNode}
    (hserves : self.Serves P node') (hserial : node'.serial = node.serial) :
    { self with node := some node', renderNode := true }.Sound P where
  finished_le := h.finished_le
  finished_iff := h.finished_iff
  numbered := h.numbered
  renderNode := rfl
  told n hn := h.told n fun kept hkept => by
    obtain rfl := Option.some.inj (hnode.symm.trans hkept)
    exact hserial ▸ hn node' rfl
  serves kept hkept := by
    obtain rfl := Option.some.inj hkept
    exact { hserves with }
  idle hidle := by cases hidle

/-- A completion that is drained lets the node go; a node that has failed is
deleted. -/
theorem Sound.updateNode (h : self.Sound P) (hnode : self.node = some node) :
    (self.updateNode node).Sound P := by
  obtain ⟨node', hnode', hserves, hserial⟩ : ∃ node',
      (if node.detachRequested then node.detachVisual else node) = node' ∧
        self.Serves P node' ∧ node'.serial = node.serial := by
    by_cases hdetach : node.detachRequested
    · refine ⟨_, if_pos hdetach, (h.serves node hnode).detachVisual, ?_⟩
      obtain ⟨detached, hdetached⟩ := detachVisual_eq node
      rw [hdetached]
    · exact ⟨_, if_neg hdetach, h.serves node hnode, rfl⟩
  have hkept : ∀ kept, self.node = some kept → kept.serial = node'.serial := by
    intro kept hkept
    obtain rfl := Option.some.inj (hnode.symm.trans hkept)
    exact hserial.symm
  unfold Preview.updateNode
  rcases hserves.drainCompletedLease with hdrain |
    ⟨buffer, controller, htracked, hlt, hempty, hdrain⟩
  · simp only [hnode', hdrain]
    by_cases hfailed : node'.failed
    · rw [if_pos hfailed]
      exact h.closes hserves hkept { h.delete hserves with }
    · rw [if_neg hfailed]
      exact h.keep hnode hserves hserial
  · simp only [hnode', hdrain]
    obtain ⟨detached, hreleased⟩ := detachVisual_eq { node' with retired := true }
    obtain ⟨controller', hdelete⟩ := delete_eq_of_idle
      { self with
        controller := controller
        mailbox := ⟨0⟩
        trace := self.trace ++ [.lease node'.serial .completed, .lease node'.serial .retired] }
      { node' with retired := true }.releaseNativeObjects
      (by simp [PreviewNode.releaseNativeObjects, hreleased])
    refine h.closes hserves hkept ⟨⟨[], ?_⟩, ?_, fun b => ?_, ?_, ?_, rfl, rfl, ?_⟩
    all_goals rw [hdelete]
    · simp [PreviewNode.releaseNativeObjects, hreleased]
    · exact h.finished_le
    · simpa using h.finished_iff b
    · intro b hb
      rw [htracked] at hb
      exact Option.some.inj hb ▸ hlt
    · simp [hempty]

/-! ## the beginning of a node -/

/-- The node of a constructor that has failed. -/
def Failed (node : PreviewNode) (serial : Nat) : Prop :=
  node.serial = serial ∧ node.valid = false ∧ node.submitted = false

theorem Failed.releaseNativeObjects {serial : Nat} (h : Failed node serial) :
    Failed node.releaseNativeObjects serial := by
  obtain ⟨detached, hnode⟩ := detachVisual_eq node
  simpa [Failed, PreviewNode.releaseNativeObjects, hnode] using h

/-- The constructor fails before it submits the lease, or the node holds a
submitted lease. -/
theorem create_eq (self : Preview) (graphics : Graphics) :
    (∃ node controller token, Failed node self.nodes ∧
      self.create graphics = (node, { self with
        controller := controller, nextBridgeToken := token, nodes := self.nodes + 1 })) ∨
    ∃ lease context controller token, lease ≠ 0 ∧
      controller.Holds self.renderThread self.deviceGeneration lease .submitted ∧
      self.create graphics = (
        { serial := self.nodes
          deviceGeneration := self.deviceGeneration
          lease := lease
          frameContext := context
          valid := true
          submitted := true
          visual := true
          texture := true
          textureWrapper := true },
        { self with
          controller := controller
          nextBridgeToken := token
          nodes := self.nodes + 1
          trace := self.trace ++ [.lease self.nodes .submitted] }) := by
  have hfailed (node : PreviewNode) (message : String) (hserial : node.serial = self.nodes)
      (hsubmitted : node.submitted = false) : Failed (node.fail message) self.nodes :=
    ⟨hserial, rfl, hsubmitted⟩
  unfold create
  by_cases htexture : graphics.texture
  swap
  · left
    simp only [htexture]
    exact ⟨_, _, _, hfailed _ _ rfl rfl, rfl⟩
  by_cases hwrapper : graphics.wrapper
  swap
  · left
    simp only [htexture, hwrapper]
    exact ⟨_, _, _, (hfailed _ _ rfl rfl).releaseNativeObjects, rfl⟩
  by_cases hnative : graphics.nativeTexture
  swap
  · left
    simp only [htexture, hwrapper, hnative]
    exact ⟨_, _, _, (hfailed _ _ rfl rfl).releaseNativeObjects, rfl⟩
  simp only [htexture, hwrapper, hnative, Bool.not_true, Bool.false_eq_true, if_false]
  split
  · left
    exact ⟨_, _, _, (hfailed _ _ rfl rfl).releaseNativeObjects, rfl⟩
  · rename_i lease context controller _
    split
    · left
      exact ⟨_, _, _, (hfailed _ _ rfl rfl).releaseNativeObjects, rfl⟩
    · rename_i submitted hsubmit
      right
      obtain ⟨hlease, hholds⟩ := EditorController.submitFrame_eq_true hsubmit
      exact ⟨lease, context, submitted, self.nextBridgeToken + 2, hlease, hholds, rfl⟩

theorem Sound.unseen (h : self.Sound P) : ∀ x ∈ self.trace, x.node ≠ some self.nodes := by
  intro x hx hnode
  exact Nat.lt_irrefl _ (h.numbered x hx _ hnode)

/-- A step that only tells of a new node. -/
theorem Sound.numbered_append (h : self.Sound P) {x : Happening} (hx : x.node = some self.nodes) :
    ∀ y ∈ self.trace ++ [x], ∀ n, y.node = some n → n < self.nodes + 1 := by
  intro y hy n hn
  rcases List.mem_append.mp hy with hy | hy
  · exact Nat.lt_succ_of_lt (h.numbered y hy n hn)
  · obtain rfl := List.mem_singleton.mp hy
    obtain rfl := Option.some.inj (hx.symm.trans hn)
    exact Nat.lt_succ_self _

/-- A constructor that fails leaves no node and no lease. -/
theorem Sound.fails (h : self.Sound P) (hnode : self.node = none)
    (hfailed : Failed node self.nodes) (controller : EditorController) (token : UInt64) :
    ({ self with
        controller := controller
        nextBridgeToken := token
        nodes := self.nodes + 1 }.delete node).Sound P := by
  obtain ⟨hserial, -, hsubmitted⟩ := hfailed
  obtain ⟨hhandlers, hmailbox⟩ := h.idle hnode
  obtain ⟨controller', hdelete⟩ := delete_eq_of_idle { self with
    controller := controller, nextBridgeToken := token, nodes := self.nodes + 1 }
    node (by simp [hsubmitted])
  rw [hdelete, hserial]
  refine ⟨h.finished_le, fun b => ?_, h.numbered_append rfl, h.renderNode, fun n _ => ?_,
    by simp [hnode], fun _ => ⟨hhandlers, ?_⟩⟩
  · simpa using h.finished_iff b
  · by_cases hn : self.nodes = n
    · subst hn
      exact (Open.of_unseen h.unseen).destroy fun hmem => h.unseen _ hmem rfl
    · refine (h.told n (by simp [hnode])).append ?_
      simpa [Happening.node] using hn
  · simp [hmailbox]

/-- A node whose lease is submitted is served. -/
theorem Sound.submits (h : self.Sound P) (hnode : self.node = none)
    {controller : EditorController} (token : UInt64) {lease : UInt64} (context : FrameContext)
    (hlease : lease ≠ 0)
    (hholds : controller.Holds self.renderThread self.deviceGeneration lease .submitted) :
    { self with
      controller := controller
      nextBridgeToken := token
      nodes := self.nodes + 1
      renderNode := true
      node := some
        { serial := self.nodes
          deviceGeneration := self.deviceGeneration
          lease := lease
          frameContext := context
          valid := true
          submitted := true
          visual := true
          texture := true
          textureWrapper := true }
      trace := self.trace ++ [Happening.lease self.nodes .submitted] }.Sound P where
  finished_le := h.finished_le
  finished_iff b := by simpa using h.finished_iff b
  numbered := h.numbered_append rfl
  renderNode := rfl
  told n hn := by
    refine (h.told n (by simp [hnode])).append ?_
    simpa [Happening.node] using hn _ rfl
  serves kept hkept := by
    obtain rfl := Option.some.inj hkept
    have hopen : Open (self.trace ++ [.lease self.nodes .submitted]) self.nodes :=
      (Open.of_unseen h.unseen).append ⟨by simp, by simp, by simp⟩
    have hundrawn : ∀ b, .drew self.nodes b ∉ self.trace := fun b hmem => h.unseen _ hmem rfl
    exact {
      valid := rfl
      submitted := rfl
      retired := rfl
      lease := hlease
      attached := rfl
      holds := hholds
      awaits := h.idle hnode
      numbered := Nat.lt_succ_self _
      isOpen := hopen
      drawn _ b hmem := by simp [hundrawn] at hmem }
  idle hidle := by cases hidle

/-- A node is created unless its creation fails. -/
theorem Sound.newNode (h : self.Sound P) (hnode : self.node = none) (graphics : Graphics) :
    (self.newNode graphics).Sound P := by
  have hhidden : { self with renderNode := false }.Sound P :=
    { h with renderNode := by simp [hnode], serves := by simp [hnode] }
  have hquiet : { self with renderNode := false, pumpActive := false }.Sound P :=
    { hhidden with serves := by simp [hnode] }
  unfold Preview.newNode queueFailure
  dsimp only
  split
  · exact hhidden
  split
  · exact hquiet
  split
  · exact { hquiet with serves := by simp [hnode] }
  split
  · exact { hquiet with serves := by simp [hnode] }
  rcases create_eq { self with renderNode := false } graphics with
    ⟨node, controller, token, hfailed, hcreate⟩ |
    ⟨lease, context, controller, token, hlease, hholds, hcreate⟩
  · rw [hcreate]
    have hfails := hhidden.fails hnode hfailed controller token
    simp only [hfailed.2.1, Bool.not_false, if_true]
    exact { hfails with serves := fun kept hkept => { hfails.serves kept hkept with } }
  · rw [hcreate]
    have hsubmits := hhidden.submits hnode token context hlease hholds
    simp only [Bool.not_true, Bool.false_eq_true, if_false]
    exact { hsubmits with serves := fun kept hkept => { hsubmits.serves kept hkept with } }

theorem Sound.updatePaintNode (h : self.Sound P) (graphics : Graphics) :
    (self.updatePaintNode graphics).Sound P := by
  unfold Preview.updatePaintNode
  split
  · rename_i node hnode
    exact h.updateNode hnode
  · rename_i hnode
    exact h.newNode hnode graphics

/-! ## frames and buffers -/

/-- The next buffer finishes. -/
theorem Sound.finish (h : self.Sound P) (hlt : self.finished < self.committed) :
    { self with
      finished := self.finished + 1
      trace := self.trace ++ [Happening.finished self.finished] }.Sound P where
  finished_le := hlt
  finished_iff b := by
    have hfinished := h.finished_iff b
    simp only [List.mem_append, List.mem_singleton, Happening.finished.injEq]
    grind
  numbered x hx n hn := by
    rcases List.mem_append.mp hx with hx | hx
    · exact h.numbered x hx n hn
    · obtain rfl := List.mem_singleton.mp hx
      cases hn
  renderNode := h.renderNode
  told n hn := (h.told n hn).append (by simp [Happening.node])
  serves kept hkept := by
    have hserves := h.serves kept hkept
    refine { hserves with
      awaits := ?_
      isOpen := hserves.isOpen.append ⟨by simp, by simp, by simp⟩
      drawn := fun hP b hdrew => hserves.drawn hP b (by simpa using hdrew) }
    have hawaits := hserves.awaits
    unfold Awaits at hawaits ⊢
    grind
  idle := h.idle

/-- A handler of a finished buffer hands its lease over. -/
theorem Sound.runHandlers (h : self.Sound P) (hlt : buffer < self.finished) :
    (self.runHandlers buffer).Sound P := by
  refine { h with serves := fun kept hkept => ?_, idle := fun hnode => ?_ }
  · have hserves := h.serves kept hkept
    refine { hserves with awaits := ?_ }
    have hawaits := hserves.awaits
    cases hbuffer : kept.commandBuffer with
    | none =>
        simp only [Awaits, hbuffer] at hawaits ⊢
        simp [Preview.runHandlers, hawaits]
    | some tracked =>
        simp only [Awaits, hbuffer] at hawaits ⊢
        obtain ⟨hcommitted, ⟨hhandlers, hmailbox⟩ | ⟨hhandlers, hmailbox, hdone⟩⟩ := hawaits
        · refine ⟨hcommitted, ?_⟩
          by_cases htracked : tracked = buffer
          · right
            simp [Preview.runHandlers, hhandlers, hmailbox, htracked, CompletionMailbox.enqueue,
              hlt]
          · left
            simp [Preview.runHandlers, hhandlers, hmailbox, htracked]
        · refine ⟨hcommitted, .inr ?_⟩
          simp [Preview.runHandlers, hhandlers, hmailbox, hdone]
  · obtain ⟨hhandlers, hmailbox⟩ := h.idle hnode
    simp [Preview.runHandlers, hhandlers, hmailbox]

/-- A frame that draws the texture leaves its buffer tracked: no buffer is
tracked for the node yet, and the buffer is of its device. -/
def Careful (self : Preview) : Event → Prop
  | .render list => ∀ node, self.node = some node → node.visual = true →
      node.completionAttached = false ∧ node.failed = false ∧ list = .available true
  | _ => True

/-- What a frame draws of the node. -/
def drawing (self : Preview) (node : PreviewNode) : List Happening :=
  if node.visual then [.drew node.serial self.committed] else []

theorem drew_mem_drawing {n : Nat} :
    .drew n buffer ∈ self.drawing node ↔
      node.visual = true ∧ n = node.serial ∧ buffer = self.committed := by
  unfold drawing
  by_cases hvisual : node.visual <;> simp [hvisual]

theorem mem_drawing {x : Happening} (hx : x ∈ self.drawing node) :
    x = .drew node.serial self.committed := by
  unfold drawing at hx
  by_cases hvisual : node.visual <;> simp_all

theorem drawing_isOpen {n : Nat} : Open (self.drawing node) n where
  completed hmem := by cases mem_drawing hmem
  retired hmem := by cases mem_drawing hmem
  destroyed hmem := by cases mem_drawing hmem

theorem draw_eq (hnode : self.node = some node) :
    self.draw = { self with trace := self.trace ++ self.drawing node } := by
  unfold draw drawing
  split
  · simp_all
  · rename_i kept hkept
    obtain rfl := Option.some.inj (hnode.symm.trans hkept)
    split <;> simp

/-- The frame is drawn, and the node has other flags after it. -/
theorem Sound.draws (h : self.Sound P) (hnode : self.node = some node) {node' : PreviewNode}
    {handlers : List (Nat × UInt64)} (hserial : node'.serial = node.serial)
    (hserves : { self with
      node := some node'
      handlers := handlers
      committed := self.committed + 1
      trace := self.trace ++ self.drawing node }.Serves P node') :
    { self with
      node := some node'
      handlers := handlers
      committed := self.committed + 1
      trace := self.trace ++ self.drawing node }.Sound P where
  finished_le := Nat.le_succ_of_le h.finished_le
  finished_iff b := by
    rw [← h.finished_iff b, List.mem_append, or_iff_left]
    intro hmem
    cases mem_drawing hmem
  numbered x hx n hn := by
    rcases List.mem_append.mp hx with hx | hx
    · exact h.numbered x hx n hn
    · obtain rfl := mem_drawing hx
      obtain rfl := Option.some.inj hn
      exact (h.serves node hnode).numbered
  renderNode := by simp [h.renderNode, hnode]
  told n hn := by
    have hne : node.serial ≠ n := hserial ▸ hn node' rfl
    refine (h.told n fun kept hkept => ?_).append fun y hy => ?_
    · rwa [← Option.some.inj (hnode.symm.trans hkept)]
    · obtain rfl := mem_drawing hy
      exact fun hyn => hne (Option.some.inj hyn)
  serves kept hkept := by
    obtain rfl := Option.some.inj hkept
    exact hserves
  idle hidle := by cases hidle

/-- The node is served as before, unless it is drawn into a buffer that is not
tracked. -/
theorem Serves.draws (h : self.Serves P node) (hdrawn : P → node.visual = false)
    (node' : Option PreviewNode) :
    { self with
      node := node'
      committed := self.committed + 1
      trace := self.trace ++ self.drawing node }.Serves P node := by
  refine { h with
    awaits := ?_
    isOpen := h.isOpen.append drawing_isOpen
    drawn := fun hP b hmem => ?_ }
  · have hawaits := h.awaits
    unfold Awaits at hawaits ⊢
    grind
  · rcases List.mem_append.mp hmem with hmem | hmem
    · exact h.drawn hP b hmem
    · obtain ⟨hvisual, -⟩ := drew_mem_drawing.mp hmem
      simp [hdrawn hP] at hvisual

/-- The scene graph without its node. -/
theorem Sound.teardown (h : self.Sound P) (thread : ThreadId) :
    ∀ next, self.step (.teardown thread) = some next → next.Sound P := by
  rintro _ ⟨⟩
  cases hnode : self.node with
  | none =>
      exact { h with
        renderNode := by simp [onInvalidated, hnode]
        serves := by simp [onInvalidated, hnode] }
  | some node =>
      have hserves := h.serves node hnode
      refine h.closes hserves ?_ { h.delete hserves with }
      intro kept hkept
      rw [Option.some.inj (hnode.symm.trans hkept)]

/-- What `onAfterRendering` makes of a node, and the handlers that it adds. -/
inductive Rendered (node : PreviewNode) (buffer : Nat) :
    CommandList → PreviewNode → List (Nat × UInt64) → Prop where
  | skips {list : CommandList} (hskip : node.completionAttached = true ∨ node.failed = true) :
      Rendered node buffer list node []
  | fails {list : CommandList} {detach : Bool} {message : String}
      (hlist : list ≠ .available true) :
      Rendered node buffer list ({ node with detachRequested := detach }.fail message) []
  | attaches (hattached : node.completionAttached = false) :
      Rendered node buffer (.available true)
        { node with
          commandBuffer := some buffer, completionAttached := true, detachRequested := true }
        [(buffer, node.lease)]

theorem onAfterRendering_eq (self : Preview) (hnode : self.node = some node)
    (hrender : self.renderNode = true)
    (hvalid : node.valid = !node.failed) (list : CommandList) :
    ∃ node' handlers, Rendered node self.committed list node' handlers ∧
      self.onAfterRendering list =
        { self with node := some node', handlers := self.handlers ++ handlers } := by
  have hself : self = { self with node := some node, handlers := self.handlers ++ [] } := by
    rw [List.append_nil, ← hnode]
  unfold onAfterRendering
  rw [hnode]
  dsimp only
  by_cases hskip : node.completionAttached = true ∨ node.failed = true
  · refine ⟨node, [], .skips hskip, ?_⟩
    rw [← hself, if_pos (by simpa [hrender] using hskip)]
  obtain ⟨hattached, hfailed⟩ : node.completionAttached = false ∧ node.failed = false := by
    simpa using hskip
  rw [if_neg (by simp [hrender, hattached, hfailed])]
  cases list with
  | unavailable =>
      refine ⟨_, [], @Rendered.fails node self.committed .unavailable true
        "Qt Metal CommandListResource is unavailable" nofun, ?_⟩
      rw [List.append_nil]
      rfl
  | available sameDevice =>
      cases sameDevice with
      | false =>
          refine ⟨_, [], @Rendered.fails node self.committed (.available false)
            node.detachRequested "Metal command buffer device mismatch" nofun, ?_⟩
          have hmismatch : node.attachCompletion self.committed false =
              (false, node.fail "Metal command buffer device mismatch") := by
            simp [PreviewNode.attachCompletion, hvalid, hattached, hfailed]
          dsimp only
          rw [hmismatch]
          rfl
      | true =>
          refine ⟨_, _, .attaches hattached, ?_⟩
          simp [PreviewNode.attachCompletion, hvalid, hattached, hfailed]

/-- A frame of the node. -/
theorem Sound.render (h : self.Sound P) (list : CommandList)
    (hcareful : P → self.Careful (.render list)) :
    ∀ next, self.step (.render list) = some next → next.Sound P := by
  rintro _ ⟨⟩
  cases hnode : self.node with
  | none =>
      have hframe : self.draw.onAfterRendering list = self := by
        simp [draw, onAfterRendering, hnode]
      rw [hframe]
      exact { h with finished_le := Nat.le_succ_of_le h.finished_le, serves := by simp [hnode] }
  | some node =>
      have hserves := h.serves node hnode
      obtain ⟨node', handlers, hrendered, hafter⟩ := onAfterRendering_eq
        { self with trace := self.trace ++ self.drawing node } hnode
        (by simp [h.renderNode, hnode]) hserves.valid list
      have hseen (hP : P) (hvisual : node.visual = true) := hcareful hP node hnode hvisual
      rw [draw_eq hnode, hafter]
      cases hrendered with
      | skips hskip =>
          have hhidden (hP : P) : node.visual = false := by
            have hseen := hseen hP
            grind
          rw [List.append_nil]
          exact h.draws hnode rfl (hserves.draws hhidden _)
      | @fails _ detach message hlist =>
          have hhidden (hP : P) : node.visual = false := by
            have hseen := hseen hP
            grind
          rw [List.append_nil]
          exact h.draws hnode rfl { hserves.draws hhidden _ with valid := rfl }
      | attaches hattached =>
          have huntracked : node.commandBuffer = none := by
            simpa [hattached] using hserves.attached
          obtain ⟨hhandlers, hmailbox⟩ : self.handlers = [] ∧ self.mailbox = ⟨0⟩ := by
            simpa [Awaits, huntracked] using hserves.awaits
          have hundrawn (hP : P) (b : Nat) : .drew node.serial b ∉ self.trace := by
            intro hmem
            simpa [huntracked] using hserves.drawn hP b hmem
          refine h.draws hnode rfl { hserves with
            attached := rfl
            awaits := ⟨Nat.lt_succ_self _, .inl ⟨?_, hmailbox⟩⟩
            isOpen := hserves.isOpen.append drawing_isOpen
            drawn := fun hP b hmem => ?_ }
          · simp [hhandlers]
          · have hmem := (List.mem_append.mp hmem).resolve_left (hundrawn hP b)
            rw [(drew_mem_drawing.mp hmem).2.2]

/-! ## runs -/

/-- **What every step keeps.** -/
theorem Sound.step (h : self.Sound P) {event : Event} (hcareful : P → self.Careful event)
    (hstep : self.step event = some next) : next.Sound P := by
  cases event with
  | edit history epoch =>
      cases hstep
      exact { h with
        serves := fun kept hkept =>
          have hserves := h.serves kept hkept
          { hserves with holds := hserves.holds.edit history epoch } }
  | publish =>
      cases hstep
      exact { h with
        serves := fun kept hkept =>
          have hserves := h.serves kept hkept
          { hserves with holds := hserves.holds.refreshSnapshot } }
  | update | selfTestMode _ =>
      cases hstep
      exact { h with serves := fun kept hkept => { h.serves kept hkept with } }
  | tick =>
      simp only [Preview.step] at hstep
      split_ifs at hstep with htimer hpump
      all_goals
        cases hstep
        exact { h with serves := fun kept hkept => { h.serves kept hkept with } }
  | sync graphics =>
      simp only [Preview.step] at hstep
      split_ifs at hstep with hdirty
      cases hstep
      have hclean : { self with dirty := false }.Sound P :=
        { h with serves := fun kept hkept => { h.serves kept hkept with } }
      exact hclean.updatePaintNode graphics
  | render list => exact h.render list hcareful next hstep
  | finish =>
      simp only [Preview.step] at hstep
      split_ifs at hstep with hlt
      cases hstep
      exact h.finish hlt
  | notify buffer =>
      simp only [Preview.step] at hstep
      split_ifs at hstep with hlt
      cases hstep
      exact h.runHandlers hlt
  | teardown thread => exact h.teardown thread next hstep

theorem run_concat_eq_some_iff {events : List Event} {event : Event} :
    self.run (events ++ [event]) = some next ↔
      ∃ preview, self.run events = some preview ∧ preview.step event = some next := by
  simp [run, List.foldlM_append, Option.bind_eq_some_iff]

/-- Every step of the run is careful. -/
def CarefulRun (self : Preview) (events : List Event) : Prop :=
  ∀ front event back preview, events = front ++ event :: back → self.run front = some preview →
    preview.Careful event

theorem carefulRun_nil : self.CarefulRun [] := by
  rintro front event back preview heq -
  simp at heq

theorem carefulRun_cons_iff {event : Event} {events : List Event} :
    self.CarefulRun (event :: events) ↔
      self.Careful event ∧ ∀ next, self.step event = some next → next.CarefulRun events := by
  constructor
  · intro h
    refine ⟨h [] event events self rfl rfl, fun next hstep front event' back preview heq hrun => ?_⟩
    refine h (event :: front) event' back preview (by simp [heq]) ?_
    simpa [run, hstep] using hrun
  · rintro ⟨hcareful, hrest⟩ front event' back preview heq hrun
    cases front with
    | nil =>
        obtain ⟨rfl, -⟩ := List.cons.inj heq
        obtain rfl := Option.some.inj hrun
        exact hcareful
    | cons first front =>
        obtain ⟨rfl, rfl⟩ := List.cons.inj heq
        obtain ⟨next, hstep, hfront⟩ : ∃ next, self.step event = some next ∧
            next.run front = some preview := by
          simpa [run, Option.bind_eq_some_iff] using hrun
        exact hrest next hstep front event' back preview rfl hfront

instance (self : Preview) : (event : Event) → Decidable (self.Careful event)
  | .render list =>
      match hnode : self.node with
      | none => .isTrue fun node hsome => by simp [hnode] at hsome
      | some node => decidable_of_iff
          (node.visual = true →
            node.completionAttached = false ∧ node.failed = false ∧ list = .available true)
          (by simp [Careful, hnode])
  | .edit _ _ | .publish | .update | .tick | .selfTestMode _ | .sync _ | .finish | .notify _
  | .teardown _ => .isTrue trivial

instance decidableCarefulRun (self : Preview) :
    (events : List Event) → Decidable (self.CarefulRun events)
  | [] => .isTrue carefulRun_nil
  | event :: events =>
      have : Decidable (∀ next, self.step event = some next → next.CarefulRun events) :=
        match hstep : self.step event with
        | none => .isTrue fun next hsome => by simp at hsome
        | some next =>
            have := decidableCarefulRun next events
            decidable_of_iff (next.CarefulRun events) (by simp)
      decidable_of_iff _ carefulRun_cons_iff.symm

theorem sound_of_run {controller : EditorController} {renderThread : ThreadId}
    {events : List Event} (hrun : (start controller renderThread).run events = some next)
    (hcareful : P → (start controller renderThread).CarefulRun events) : next.Sound P := by
  induction events using List.reverseRecOn generalizing next with
  | nil =>
      obtain rfl := Option.some.inj hrun
      exact sound_start controller renderThread
  | append_singleton events event ih =>
      obtain ⟨preview, hfront, hstep⟩ := run_concat_eq_some_iff.mp hrun
      have hsound : preview.Sound P := by
        refine ih hfront fun hP front event' back seen heq => ?_
        exact hcareful hP front event' (back ++ [event]) seen (by simp [heq])
      exact hsound.step (fun hP => hcareful hP events event [] preview rfl hfront) hstep

/-- The ends of a node that is still served are yet to come. -/
theorem Serves.retiredOnce (h : self.Serves P node) : RetiredOnce self.trace node.serial where
  completed := by simp [List.count_eq_zero_of_not_mem h.isOpen.completed]
  retired := by simp [List.count_eq_zero_of_not_mem h.isOpen.retired]
  destroyed _ hmem := absurd hmem h.isOpen.destroyed

theorem Sound.retiredOnce (h : self.Sound P) (n : Nat) : RetiredOnce self.trace n := by
  by_cases hn : ∃ node, self.node = some node ∧ node.serial = n
  · obtain ⟨node, hnode, rfl⟩ := hn
    exact (h.serves node hnode).retiredOnce
  · exact (h.told n fun node hnode hserial => hn ⟨node, hnode, hserial⟩).toRetiredOnce

theorem Sound.finishedFirst (h : self.Sound P) (hP : P) (n : Nat) :
    FinishedFirst self.trace n := by
  by_cases hn : ∃ node, self.node = some node ∧ node.serial = n
  · obtain ⟨node, hnode, rfl⟩ := hn
    exact fun _ _ hmem => absurd hmem (h.serves node hnode).isOpen.completed
  · exact (h.told n fun node hnode hserial => hn ⟨node, hnode, hserial⟩).finishedFirst hP

end Preview

open Preview

/-- **A lease is completed and retired once, and before its node is gone; and
where no frame draws its texture into a buffer that is not tracked, it is
completed after the GPU has finished with it.** -/
theorem gpu_use_ends_before_retirement {controller : EditorController} {renderThread : ThreadId}
    {events : List Preview.Event} {preview : Preview}
    (hrun : (Preview.start controller renderThread).run events = some preview) :
    (∀ node, RetiredOnce preview.trace node) ∧
      ((Preview.start controller renderThread).CarefulRun events →
        ∀ node, FinishedFirst preview.trace node) :=
  ⟨(sound_of_run (P := False) hrun False.elim).retiredOnce,
    fun hcareful => (sound_of_run (P := True) hrun fun _ => hcareful).finishedFirst trivial⟩

/-- A window in which nothing fails. -/
def metalGraphics : Graphics := ⟨true, true, true, true, true, 7⟩

/-- A controller with a core that was just created. -/
def freshController : EditorController := ⟨some ⟨.default, 0, ∅, 0⟩, .none⟩

/-- A preview that is drawn once, and detached before the next frame. -/
def detachedEvents : List Preview.Event :=
  [.publish, .sync metalGraphics, .render (.available true), .tick, .sync metalGraphics,
    .render (.available true), .finish, .notify 0, .tick, .sync metalGraphics]

theorem gpu_use_ends_before_retirement_detachedEvents :
    ∃ preview, (start freshController 0).run detachedEvents = some preview ∧
      preview.trace.contains (.lease 0 .completed) ∧ (∀ node, RetiredOnce preview.trace node) ∧
      ∀ node, FinishedFirst preview.trace node := by
  have hrun : ((start freshController 0).run detachedEvents).isSome := by decide +kernel
  obtain ⟨preview, hpreview⟩ := Option.isSome_iff_exists.mp hrun
  have hcompleted : ((start freshController 0).run detachedEvents).any
      (·.trace.contains (.lease 0 .completed)) := by decide +kernel
  have hcareful : (start freshController 0).CarefulRun detachedEvents := by decide +kernel
  obtain ⟨honce, hfirst⟩ := gpu_use_ends_before_retirement hpreview
  exact ⟨preview, hpreview, by simpa [hpreview] using hcompleted, honce, hfirst hcareful⟩

/-- A preview that is drawn into two buffers before it is detached; the first
one finishes. -/
def redrawnEvents : List Preview.Event :=
  [.publish, .sync metalGraphics, .render (.available true), .render (.available true), .finish,
    .notify 0, .tick, .sync metalGraphics]

/-- The lease is completed while the GPU has the texture in use. -/
theorem completes_early_redrawnEvents :
    ∃ preview, (start freshController 0).run redrawnEvents = some preview ∧
      ¬ FinishedFirst preview.trace 0 := by
  have hrun : ((start freshController 0).run redrawnEvents).map (·.trace) =
      some [.lease 0 .submitted, .drew 0 0, .drew 0 1, .finished 0, .lease 0 .completed,
        .lease 0 .retired, .destroyed 0] := by decide +kernel
  obtain ⟨preview, hpreview, htrace⟩ := Option.map_eq_some_iff.mp hrun
  refine ⟨preview, hpreview, fun hfirst => ?_⟩
  have hlate := (hfirst 1 (by simp [htrace]) (by simp [htrace])).subset List.mem_cons_self
  simp [htrace] at hlate

end StitchEditor.Desktop
