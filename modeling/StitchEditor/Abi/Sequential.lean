import Mathlib
import StitchEditor.Abi.Log

/-!
# StitchEditor.Abi.Sequential

Calls that nothing interrupts: one thread runs its call to the end while the
others stand still.

A caller that submits batch after batch, each with the revision and the epoch
that the core then has, adds the commands to the history as if they were
applied one by one (`Process.Offers.submitBatches`).
-/

namespace StitchEditor.Abi

open StitchEditor Fallible

/-! ## raw commands -/

/-- A canonical fraction as the ABI writes it. -/
def StitchRational.of (q : Rational) : StitchRational := ⟨q.numerator, q.denominator⟩

def StitchTimeRange.of (r : TimeRange) : StitchTimeRange := ⟨.of r.start, .of r.stop⟩

/-- A raw command with all fields unused. -/
def StitchCommand.blank (kind : UInt32) (primaryId : StitchId) : StitchCommand where
  header := Abi.header commandSize
  kind := kind
  reserved := 0
  primaryId := primaryId
  secondaryId := .replicate 16 0
  tertiaryId := .replicate 16 0
  contentSha256 := .replicate 32 0
  byteLength := 0
  providerId := .replicate 16 0
  timelineRange := ⟨⟨0, 0⟩, ⟨0, 0⟩⟩
  sourceRange := ⟨⟨0, 0⟩, ⟨0, 0⟩⟩

/-- A raw command that decodes to the command. -/
def StitchCommand.of : Command → StitchCommand
  | .addAsset asset => { blank 1 asset.id.bytes with
      contentSha256 := asset.identity.contentSha256
      byteLength := asset.identity.byteLength
      providerId := asset.identity.providerId }
  | .addTrack trackId => blank 2 trackId.bytes
  | .addClip clipId assetId trackId timelineRange sourceRange => { blank 3 clipId.bytes with
      secondaryId := assetId.bytes
      tertiaryId := trackId.bytes
      timelineRange := .of timelineRange
      sourceRange := .of sourceRange }
  | .moveClip clipId timelineRange => { blank 4 clipId.bytes with
      timelineRange := .of timelineRange }
  | .removeClip clipId => blank 5 clipId.bytes

theorem rational_of (q : Rational) : rational (.of q) = .ok q := by
  rw [rational, StitchRational.of, Rational.new_self]
  rfl

theorem range_of (r : TimeRange) : range (.of r) = .ok r := by
  have hnew := TimeRange.new_eq_ok_iff.mpr (⟨rfl, rfl⟩ : r.start = r.start ∧ r.stop = r.stop)
  simp only [range, StitchTimeRange.of, rational_of, bind_eq_ok_iff]
  exact ⟨_, rfl, _, rfl, by rw [hnew]; rfl⟩

/-- **Every command has a raw command.** -/
theorem command_of (c : Command) : command (.of c) = .ok c := by
  cases c with
  | addAsset asset => rfl
  | addTrack trackId => rfl
  | addClip clipId assetId trackId timelineRange sourceRange =>
      have htimeline := range_of timelineRange
      have hsource := range_of sourceRange
      simp only [command, StitchCommand.of, StitchCommand.blank, htimeline, hsource]
      rfl
  | moveClip clipId timelineRange =>
      have htimeline := range_of timelineRange
      simp only [command, StitchCommand.of, StitchCommand.blank, htimeline]
      rfl
  | removeClip clipId => rfl

theorem mapM_command_of (commands : List Command) :
    (commands.map StitchCommand.of).mapM command = .ok commands := by
  induction commands with
  | nil => rfl
  | cons c commands ih =>
      rw [List.map_cons, List.mapM_cons, command_of, ih]
      rfl

/-! ## batches -/

/-- The batch of a caller that knows the revision and the epoch of the core. -/
def CoreState.nextBatch (self : CoreState) (commands : List StitchCommand) :
    StitchCommandBatch where
  header := header commandBatchSize
  commands := some commands
  commandCount := UInt32.ofNat commands.length
  reserved := 0
  expectedRevision := self.revision
  epoch := self.epoch

/-- The raw commands of a batch and what they decode to. -/
structure Decodes (raws : List StitchCommand) (commands : List Command) : Prop where
  decodes : raws.mapM command = .ok commands
  nonempty : commands ≠ []
  few : commands.length ≤ maxCommands

section Decodes

variable {raws : List StitchCommand} {commands : List Command}

theorem Decodes.length_eq (h : Decodes raws commands) : raws.length = commands.length :=
  (length_of_mapM_eq_ok h.decodes).symm

theorem Decodes.commandCount (h : Decodes raws commands) (core : CoreState) :
    (core.nextBatch raws).commandCount.toNat = commands.length := by
  have hfew := h.few
  unfold maxCommands at hfew
  rw [CoreState.nextBatch, UInt32.toNat_ofNat', h.length_eq, Nat.mod_eq_of_lt (by omega)]

theorem Decodes.checkBatch (h : Decodes raws commands) (core : CoreState) :
    Abi.checkBatch (core.nextBatch raws) = .ok () := by
  have hfew := h.few
  have hpos := List.length_pos_iff.mpr h.nonempty
  simp only [Abi.checkBatch, validHeader, bind_eq_ok_iff, refuse_eq_ok_iff, h.commandCount]
  refine ⟨(), ⟨(), ?_, ?_⟩, (), ?_, ?_⟩
  · exact not_not.mpr rfl
  · exact not_not.mpr rfl
  · exact not_not.mpr rfl
  · simp only [CoreState.nextBatch, reduceCtorEq, and_false, or_false]
    omega

theorem Decodes.decoded (h : Decodes raws commands) (core : CoreState) :
    (core.nextBatch raws).raws.mapM command = .ok commands ∧
      (core.nextBatch raws).decoded = commands := by
  have hraws : (core.nextBatch raws).raws = raws := by
    rw [StitchCommandBatch.raws, h.commandCount, ← h.length_eq]
    exact List.take_length
  rw [StitchCommandBatch.decoded, hraws, h.decodes]
  exact ⟨rfl, rfl⟩

end Decodes

/-! ## one call -/

section Calls

variable [Sha256]

/-- The next section of the thread's call; a callback makes no calls of its
own. -/
def Thread.next (self : Thread) (thread : ThreadId) : Action :=
  match self.pc with
  | some _ => .advance thread
  | none => .endCallback thread

/-- The rest of a call, section by section. -/
def Process.finish (thread : ThreadId) : Nat → Process → Option (Process × StitchResult × Output)
  | 0, _ => none
  | sections + 1, p =>
      match p.step ((p.threads thread).next thread) with
      | none => none
      | some (p', some (result, output)) => some (p', result, output)
      | some (p', none) => finish thread sections p'

/-- A call from its beginning to its end; none has more than five sections. -/
def Process.call (self : Process) (thread : ThreadId) (call : Call) :
    Option (Process × StitchResult × Output) :=
  match self.step (.begin thread call) with
  | none => none
  | some (p, some (result, output)) => some (p, result, output)
  | some (p, none) => p.finish thread 5

variable {p q : Process} {thread : ThreadId} {pc pc' : Pc} {sections : Nat}

theorem Process.finish_of_continues (hpc : p.threads thread = ⟨none, some pc⟩)
    (hexec : p.exec thread pc = .ok (q, .continues pc')) :
    p.finish thread (sections + 1) =
      (q.setThread thread ⟨none, some pc'⟩).finish thread sections := by
  simp only [finish, Thread.next, Process.step, hpc, hexec]

theorem Process.finish_of_finished (hpc : p.threads thread = ⟨none, some pc⟩)
    {result : StitchResult} {output : Output}
    (hexec : p.exec thread pc = .ok (q, .finished result output)) :
    p.finish thread (sections + 1) = some (q.setThread thread ⟨none, none⟩, result, output) := by
  simp only [finish, Thread.next, Process.step, hpc, hexec]

theorem Process.finish_of_error (hpc : p.threads thread = ⟨none, some pc⟩) {error : StitchResult}
    (hexec : p.exec thread pc = .error error) :
    p.finish thread (sections + 1) = some (p.setThread thread ⟨none, none⟩, error, .none) := by
  simp only [finish, Thread.next, Process.step, hpc, hexec]

theorem Process.finish_of_callback (hpc : p.threads thread = ⟨none, some pc⟩) {diff : UInt64}
    (hexec : p.exec thread pc = .ok (q, .callback diff)) :
    p.finish thread (sections + 2) =
      some ((q.setThread thread ⟨some diff, none⟩).setThread thread ⟨none, none⟩, .ok,
        .handle diff) := by
  have hthread : (q.setThread thread ⟨some diff, none⟩).threads thread = ⟨some diff, none⟩ :=
    Function.update_self ..
  simp only [finish, Thread.next, Process.step, hpc, hexec, hthread]

/-! ## submits -/

/-- The thread is between two calls, and the handle stands for a core that it
owns. -/
structure Process.Offers (p : Process) (thread : ThreadId) (handle : UInt64) (core : CoreState) :
    Prop where
  idle : p.threads thread = ⟨none, none⟩
  found : ∃ entry, p.cores[handle]? = some entry ∧ p.heap[entry]? = some core
  owner : core.owner = thread

variable {handle : UInt64} {core core' : CoreState} {batch : StitchCommandBatch}

/-- The sections of a submit up to the lock of the core. -/
theorem Process.Offers.call_eq (h : p.Offers thread handle core)
    (hcheck : checkBatch batch = .ok ())
    (callback : Bool) :
    ∃ (q : Process) (entry : Nat), p.call thread (.coreSubmit handle (some batch) callback true) =
        q.finish thread 4 ∧
        q.threads thread = ⟨none, some (.locked entry (.submit batch callback))⟩ ∧
      q.cores[handle]? = some entry ∧ q.heap[entry]? = some core := by
  obtain ⟨entry, hentry, hcore⟩ := h.found
  have hstart : (Call.coreSubmit handle (some batch) callback true).start false =
      .ok (.lookup handle (.submit batch callback)) := by
    simp only [Call.start, writable, input, refuse, bind_eq_ok_iff, pure_eq_ok_iff]
    exact ⟨(), rfl, (), rfl, batch, rfl, (), hcheck, rfl⟩
  have hbegin : p.call thread (.coreSubmit handle (some batch) callback true) =
      (p.setThread thread ⟨none, some (.lookup handle (.submit batch callback))⟩).finish
        thread 5 := by
    simp only [Process.call, Process.step, h.idle, Option.isSome_none, hstart]
  have hlookup : ∀ q : Process, q.cores = p.cores → q.exec thread
      (.lookup handle (.submit batch callback)) =
        .ok (q, .continues (.locked entry (.submit batch callback))) := by
    intro q hcores
    simp only [Process.exec, hcores, hentry]
    rfl
  rw [hbegin]
  exact ⟨_, entry, finish_of_continues (Function.update_self ..) (hlookup _ rfl),
    Function.update_self .., hentry, hcore⟩

/-- A submit that the core refuses. -/
theorem Process.Offers.call_of_error (h : p.Offers thread handle core)
    (hcheck : checkBatch batch = .ok ()) {error : StitchResult}
    (hsubmit : core.submit thread batch = .error error) (callback : Bool) :
    ∃ p', p.call thread (.coreSubmit handle (some batch) callback true) =
      some (p', error, .none) := by
  obtain ⟨q, entry, hcall, hpc, -, hcore⟩ := h.call_eq hcheck callback
  have hlocked : q.exec thread (.locked entry (.submit batch callback)) = .error error := by
    simp only [Process.exec, Process.access, hcore, hsubmit]
    rfl
  rw [hcall]
  exact ⟨_, finish_of_error hpc hlocked⟩

/-- A submit that the core accepts. -/
theorem Process.Offers.call_of_ok (h : p.Offers thread handle core)
    (hcheck : checkBatch batch = .ok ()) {metadata : StitchDiffMetadata}
    (hsubmit : core.submit thread batch = .ok (core', metadata)) (callback : Bool) :
    ∃ p' diff, p.call thread (.coreSubmit handle (some batch) callback true) =
      some (p', .ok, .handle diff) ∧ p'.Offers thread handle core' := by
  obtain ⟨q, entry, hcall, hpc, hentry, hcore⟩ := h.call_eq hcheck callback
  have hlocked : q.exec thread (.locked entry (.submit batch callback)) =
      .ok (q.setCore entry core', .continues (.allocateDiff metadata callback)) := by
    simp only [Process.exec, Process.access, hcore, hsubmit]
    rfl
  rw [hcall, finish_of_continues hpc hlocked, finish_of_continues (Function.update_self ..) rfl]
  have hcore' : (q.heap.set entry core')[entry]? = some core' := by
    rw [List.getElem?_set_self (List.getElem?_eq_some_iff.mp hcore).1]
  have howner : core'.owner = thread := by
    obtain ⟨next, rfl⟩ := CoreState.submit_eq_ok hsubmit
    exact h.owner
  cases callback with
  | false =>
      refine ⟨_, _, finish_of_finished (Function.update_self ..) rfl, ?_⟩
      exact ⟨Function.update_self .., ⟨entry, hentry, hcore'⟩, howner⟩
  | true =>
      refine ⟨_, _, finish_of_callback (Function.update_self ..) rfl, ?_⟩
      exact ⟨Function.update_self .., ⟨entry, hentry, hcore'⟩, howner⟩

/-! ## batch after batch -/

/-- The core that the handle stands for. -/
def Process.core? (self : Process) (handle : UInt64) : Option CoreState :=
  self.cores[handle]?.bind (self.heap[·]?)

omit [Sha256] in
theorem Process.Offers.core?_eq (h : p.Offers thread handle core) : p.core? handle = some core := by
  obtain ⟨entry, hentry, hcore⟩ := h.found
  rw [Process.core?, hentry, Option.bind_some, hcore]

/-- Submit the commands on top of what the core has; `none` unless that
succeeds with a diff. -/
def Process.submitBatch (thread : ThreadId) (handle : UInt64) (callback : Bool) (self : Process)
    (commands : List StitchCommand) : Option Process := do
  let core ← self.core? handle
  match ← self.call thread (.coreSubmit handle (some (core.nextBatch commands)) callback true) with
  | (next, .ok, .handle _) => some next
  | _ => none

variable {raws : List StitchCommand} {commands : List Command}

/-- **A batch is its commands one by one**: the core accepts it when they all
apply, and then has the history that they make. -/
theorem Process.Offers.submitBatch (h : p.Offers thread handle core) (hraws : Decodes raws commands)
    (callback : Bool) :
    (∃ next p', commands.foldlM EditorHistory.applied core.history = .ok next ∧
      p.submitBatch thread handle callback raws = some p' ∧
      p'.Offers thread handle { core with history := next }) ∨
    ∃ error, commands.foldlM EditorHistory.applied core.history = .error error ∧
      p.submitBatch thread handle callback raws = none := by
  obtain ⟨hdecodes, hdecoded⟩ := hraws.decoded core
  have hcore := h.core?_eq
  have hcheck := hraws.checkBatch core
  cases hsubmit : core.submit thread (core.nextBatch raws) with
  | ok ended =>
      obtain ⟨core', metadata⟩ := ended
      obtain ⟨p', diff, hcall, hoffers⟩ := h.call_of_ok hcheck hsubmit callback
      have haccepts := CoreState.submit_eq_ok_iff.mp hsubmit
      have happlied := haccepts.applied
      rw [hdecoded] at happlied
      refine .inl ⟨core'.history, p', happlied, ?_, haccepts.keeps ▸ hoffers⟩
      simp [Process.submitBatch, hcore, hcall]
  | error error =>
      obtain ⟨p', hcall⟩ := h.call_of_error hcheck hsubmit callback
      cases happlied : commands.foldlM EditorHistory.applied core.history with
      | ok next =>
          -- nothing else can be wrong with the batch
          have haccepts :
              core.Accepts thread (core.nextBatch raws) { core with history := next } _ :=
            ⟨h.owner, rfl, rfl, hdecoded ▸ hdecodes, hdecoded ▸ happlied, rfl, rfl⟩
          rw [CoreState.submit_eq_ok_iff.mpr haccepts] at hsubmit
          cases hsubmit
      | error e =>
          refine .inr ⟨e, rfl, ?_⟩
          simp only [Process.submitBatch, hcore, hcall, Option.bind_eq_bind, Option.bind_some]

/-- **Batches are their commands one by one.** -/
theorem Process.Offers.submitBatches (h : p.Offers thread handle core)
    {batches : List (List StitchCommand)} {cut : List (List Command)}
    (hbatches : List.Forall₂ Decodes batches cut) (callback : Bool) :
    (∃ next p', cut.flatten.foldlM EditorHistory.applied core.history = .ok next ∧
      batches.foldlM (Process.submitBatch thread handle callback) p = some p' ∧
      p'.Offers thread handle { core with history := next }) ∨
    ∃ error, cut.flatten.foldlM EditorHistory.applied core.history = .error error ∧
      batches.foldlM (Process.submitBatch thread handle callback) p = none := by
  induction hbatches generalizing p core with
  | nil => exact .inl ⟨_, p, rfl, rfl, h⟩
  | cons hraws _ ih =>
      rw [List.flatten_cons, List.foldlM_append, List.foldlM_cons]
      obtain ⟨next, p₁, happlied, hsubmit, h₁⟩ | ⟨error, happlied, hsubmit⟩ :=
        h.submitBatch hraws callback
      · rw [happlied, hsubmit]
        exact ih h₁
      · rw [happlied, hsubmit]
        exact .inr ⟨error, rfl, rfl⟩

end Calls

end StitchEditor.Abi
