import Mathlib
import StitchEditor.Abi.Errors
import StitchEditor.Abi.Leases
import StitchEditor.Abi.Staleness

/-!
# StitchEditor.Abi.Acquisition

Which leases are acquired, over every interleaving of the threads.

`stitch_frame_lease_acquire` compares the epoch and the revision of its
arguments with those of the core, and never looks at those of the lease.  A
caller that names the lease's own ones acquires current leases only, as long
as nobody changes the core before the transition (`acquires_current`); a
caller that names the core's acquires any lease (`acquires_stale_epochLabels`).
-/

namespace StitchEditor.Abi

open StitchEditor Fallible Run

section Acquisition

variable [Sha256]

/-! ## what is acquired -/

/-- Where the step ends an acquire with `Ok`, the lease has the epoch and the
revision of its core. -/
def Process.AcquiresCurrent (p : Process) (label : Label) (p' : Process) : Prop :=
  ∀ ⦃thread entry id device⦄, label = ⟨.advance thread, some (.ok, .none)⟩ →
    (p.threads thread).pc =
      some (.locked entry (.transition id device .registered .acquired none)) →
    ∃ core lease, p'.heap[entry]? = some core ∧ core.leases[id]? = some lease ∧
      lease.state = .acquired ∧ lease.Current core

/-- A check of an acquire that would pass names the epoch and the revision of
the lease that it is for. -/
def Process.NamesLease (p : Process) (action : Action) : Prop :=
  ∀ ⦃thread entry handle id device epoch revision core lease⦄, action = .advance thread →
    (p.threads thread).pc = some (.locked entry (.checkAcquire handle id device epoch revision)) →
    p.heap[entry]? = some core → core.checkAcquire epoch revision = .ok () →
    core.ownedLease thread id device = .ok lease → lease.state = .registered →
      lease.metadata.epoch = epoch ∧ lease.metadata.revision = revision

/-- The thread has passed its check and is about to move the lease to
`Acquired`. -/
inductive Process.Acquiring (p : Process) (thread : ThreadId) (entry : Nat)
    (id device : UInt64) : Prop
  | lookup {handle : UInt64}
      (hpc : (p.threads thread).pc =
        some (.lookup handle (.transition id device .registered .acquired none)))
      (hcore : p.cores[handle]? = some entry)
  | locked (hpc : (p.threads thread).pc =
      some (.locked entry (.transition id device .registered .acquired none)))

/-- While a thread is between its check and the transition that will acquire
the lease, the action leaves epoch and revision of the core alone. -/
def Process.QuietAcquire (p : Process) (action : Action) : Prop :=
  ∀ ⦃thread entry id device core lease⦄, p.Acquiring thread entry id device →
    p.heap[entry]? = some core → core.ownedLease thread id device = .ok lease →
    lease.state = .registered → ¬ p.Disturbs action entry

def Process.PromptStep (p : Process) (label : Label) (p' : Process) : Prop :=
  p.Step label p' ∧ p.NamesLease label.action ∧ p.QuietAcquire label.action

/-! ## between the check and the transition -/

/-- What holds where an acquire stands. -/
def Pc.Prompt (p : Process) (thread : ThreadId) (pc : Pc) : Prop :=
  match pc with
  | .lookup handle (.checkAcquire core _ _ _ _) => core = handle
  | .locked entry (.checkAcquire core _ _ _ _) =>
      ∀ ⦃other : Nat⦄, p.cores[core]? = some other → other = entry ∨ p.Unleased thread other
  | .lookup handle (.transition id device .registered .acquired none) =>
      ∀ ⦃entry : Nat⦄, p.cores[handle]? = some entry →
        p.VouchedFrom .registered thread entry id device
  | .locked entry (.transition id device .registered .acquired none) =>
      p.VouchedFrom .registered thread entry id device
  | _ => True

/-- The invariant of prompt runs. -/
def Process.Prompt (p : Process) : Prop :=
  ∀ ⦃thread : ThreadId⦄ ⦃pc : Pc⦄, (p.threads thread).pc = some pc → pc.Prompt p thread

variable {p q : Process} {thread other : ThreadId} {action : Action} {entry : Nat}
  {id device : UInt64}

/-- Where another thread stands stays so. -/
theorem Pc.Prompt.evolves {pc : Pc} (h : pc.Prompt p other) (hevolves : p.Evolves thread action q)
    (hne : other ≠ thread) (hquiet : p.QuietAcquire action)
    (hpc : (p.threads other).pc = some pc) : pc.Prompt q other := by
  unfold Pc.Prompt at h
  split at h
  · exact h
  · intro place hplace
    rcases hevolves.bound hplace with hbound | hvacant
    · exact (h hbound).imp_right fun hunleased => hunleased.evolves hevolves hne
    · exact .inr hvacant.unleased
  · intro place hplace
    rcases hevolves.bound hplace with hbound | hvacant
    · exact (h hbound).evolves hevolves hne fun _ _ => hquiet (.lookup hpc hbound)
    · exact hvacant.unleased.vouchedFrom .registered
  · exact h.evolves hevolves hne fun _ _ => hquiet (.locked hpc)
  · simp_all [Pc.Prompt]

omit [Sha256] in
/-- A call starts before its check. -/
theorem Pc.prompt_of_start {call : Call} {inCallback : Bool} {pc : Pc}
    (h : call.start inCallback = .ok pc) : pc.Prompt p thread := by
  cases call <;> simp only [Call.start, bind_eq_ok_iff, pure_eq_ok_iff] at h <;>
    grind [Pc.Prompt]

omit [Sha256] in
theorem CoreState.checkAcquire_eq_ok_iff {self : CoreState} {epoch : UInt64}
    {revision : StitchDigest} {u : Unit} : self.checkAcquire epoch revision = .ok u ↔
      epoch = self.epoch ∧ revision = self.revision := by
  simp [checkAcquire, bind_eq_ok_iff, refuse_eq_ok_iff]

/-- The check of a caller that names the lease leads to the transition of a
current one. -/
theorem Pc.Prompt.serves {access : Access} {core core' : CoreState} {next : Pc}
    (h : (Pc.locked entry access).Prompt p thread)
    (hpc : (p.threads thread).pc = some (.locked entry access)) (hcore : p.heap[entry]? = some core)
    (hnames : p.NamesLease (.advance thread))
    (haccess : p.Accesses thread entry core access q (.continues next) core') :
    next.Prompt q thread := by
  obtain ⟨hserves, hheap, hcores, -⟩ := haccess
  cases hserves with
  | submit | checkSubmit | retire => trivial
  | checkAcquire hcheck =>
      rw [Process.heap_set_self hcore] at hheap
      rintro place hplace core' lease hplace' howned hstate
      rw [hcores] at hplace
      rw [hheap] at hplace'
      rcases h hplace with rfl | hunleased
      · obtain rfl := Option.some.inj (hcore.symm.trans hplace')
        obtain ⟨hepoch, hrevision⟩ := hnames rfl hpc hcore hcheck howned hstate
        obtain ⟨hepoch', hrevision'⟩ := CoreState.checkAcquire_eq_ok_iff.mp hcheck
        exact ⟨hepoch.trans hepoch', hrevision.trans hrevision'⟩
      · exact hunleased.vouchedFrom .registered hplace' howned hstate

/-- A thread that runs its section stands so again. -/
theorem Pc.Prompt.executes {pc next : Pc} (h : pc.Prompt p thread)
    (hpc : (p.threads thread).pc = some pc) (hnames : p.NamesLease (.advance thread))
    (hexecutes : p.Executes thread pc q (.continues next)) : next.Prompt q thread := by
  cases hexecutes with
  | allocateCore | allocateDiff => trivial
  | insertDiff hprogress => split at hprogress <;> cases hprogress
  | locked hcore haccess => exact h.serves hpc hcore hnames haccess
  | @lookup handle access entry hbound =>
      unfold Pc.Prompt at h ⊢
      split at h
      · next heq =>
        cases heq
        subst h
        rintro other hother
        exact .inl (Option.some.inj (hother.symm.trans hbound))
      · next heq => cases heq
      · next heq =>
        cases heq
        exact h hbound
      · next heq => cases heq
      · next hcheck _ htransition _ =>
        split <;> simp_all

/-- **One step** of a prompt run keeps the invariant. -/
theorem Process.Prompt.step {p' : Process} {label : Label} (h : p.Prompt)
    (hstep : p.PromptStep label p') : p'.Prompt := by
  obtain ⟨hstep, hnames, hquiet⟩ := hstep
  obtain ⟨thread, q, state, rfl, hmoves⟩ := hstep.moves
  intro other pc hpc
  change pc.Prompt q other
  simp only [Process.setThread, Function.update_apply] at hpc
  split at hpc
  · next hthread =>
    subst hthread
    generalize haction : label.action = action at hmoves hnames
    rw [hpc] at hmoves
    cases hmoves with
    | start hstart => exact Pc.prompt_of_start hstart
    | exec hpc₀ hexec hprogress =>
        cases hprogress _ rfl
        exact (h hpc₀).executes hpc₀ hnames (Process.exec_executes hexec)
  · next hne =>
    rw [hmoves.evolves.threads] at hpc
    exact (h hpc).evolves hmoves.evolves hne hquiet hpc

/-- **One step** from there acquires a current lease, if any. -/
theorem Process.Prompt.acquiresCurrent {p' : Process} {label : Label} (h : p.Prompt)
    (hstep : p.Step label p') : p.AcquiresCurrent label p' := by
  rintro thread entry id device rfl hpc
  have hvouched : p.VouchedFrom .registered thread entry id device := h hpc
  obtain ⟨error, hexec, herror, -⟩ | ⟨q, progress, hexec, -, rfl⟩ := hstep.exec hpc
  · cases herror
    exact absurd rfl (p.raises_exec thread _ _ hexec).1
  · cases Process.exec_executes hexec with
    | counted htables => cases htables
    | @locked _ _ core core' _ _ hcore haccess =>
      have htransition : core.leaseTransition thread id device .registered .acquired =
          .ok core' := by
        cases haccess.serves with
        | transition htransition => exact htransition
      obtain ⟨lease, howned, hstate, rfl⟩ := CoreState.leaseTransition_eq_ok_iff.mp htransition
      have hcurrent := hvouched hcore howned hstate
      have hlt := (List.getElem?_eq_some_iff.mp hcore).1
      refine ⟨{ core with leases := core.leases.insert id (lease.inState .acquired) },
        lease.inState .acquired, ?_, Std.ExtTreeMap.getElem?_insert_self, rfl, hcurrent⟩
      change q.heap[entry]? = _
      rw [haccess.heap, List.getElem?_set_self hlt]
      rfl

/-- **Current leases only**: where callers name the lease's own epoch and
revision, and nobody changes the core's before the transition, every lease
is current at the step that acquires it. -/
theorem acquires_current {labels : List Label} {p p' : Process} {label : Label}
    (hrun : Runs Process.PromptStep Process.initial labels p) (hstep : p.Step label p') :
    p.AcquiresCurrent label p' := by
  have hprompt : p.Prompt := hrun.invariant (fun _ _ h => by cases h) Process.Prompt.step
  exact hprompt.acquiresCurrent hstep

/-! ## replaying a schedule -/

omit [Sha256] in
theorem Process.AcquiresCurrent.standing {p' : Process}
    (h : p.AcquiresCurrent ⟨.advance thread, some (.ok, .none)⟩ p')
    (hpc : (p.threads thread).pc =
      some (.locked entry (.transition id device .registered .acquired none))) :
    p'.standing entry id = some (.acquired, true) := by
  obtain ⟨core, lease, hcore, hlease, hstate, hcurrent⟩ := h rfl hpc
  exact Process.standing_eq_some_iff.mpr
    ⟨core, lease, hcore, hlease, hstate, decide_eq_true hcurrent⟩

/-- The action is not the check of an acquire with another epoch or revision
than the lease's. -/
def Process.namesLease (self : Process) (action : Action) : Bool :=
  match action with
  | .advance thread => match (self.threads thread).pc with
    | some (.locked entry (.checkAcquire _ id _ epoch revision)) =>
        match (self.leaseAt entry id) with
        | some lease => lease.metadata.epoch = epoch ∧ lease.metadata.revision = revision
        | none => true
    | _ => true
  | _ => true

/-- A replayed step that is certain to be prompt. -/
def Process.replayPrompt (self : Process) (label : Label) : Option Process :=
  if self.namesLease label.action then self.replayStill label else none

theorem Process.promptStep_of_replayPrompt {p' : Process} {label : Label}
    (h : p.replayPrompt label = some p') : p.PromptStep label p' := by
  obtain ⟨hnames, h⟩ := Option.ite_none_right_eq_some.mp h
  obtain ⟨hstep, hstill⟩ := Process.still_of_replayStill h
  refine ⟨hstep, ?_, fun _ _ _ _ _ _ _ _ _ _ => hstill _⟩
  intro thread entry handle id device epoch revision core lease haction hpc hcore _ howned _
  obtain ⟨hlease, -, -⟩ := CoreState.ownedLease_eq_ok_iff.mp howned
  have hleaseAt := Process.leaseAt_eq_some_iff.mpr ⟨core, hcore, hlease⟩
  simpa [Process.namesLease, haction, hpc, hleaseAt] using hnames

end Acquisition

section Schedule

/-- Thread 0 creates the core 1 and registers the frame 2. -/
def registeredLabels : List Label :=
  [.pending (.begin 0 (.coreCreate (some ⟨header coreConfigSize, 0⟩) true)),
    .pending (.advance 0),
    ⟨.advance 0, some (.ok, .handle 1)⟩,
    .pending (.begin 0 (.frameLeaseRegister 1 (some frame) true)),
    .pending (.advance 0),
    ⟨.advance 0, some (.ok, .handle 2)⟩]

/-- The sections of an acquire up to its transition. -/
def acquireLabels (epoch : UInt64) : List Label :=
  [.pending (.begin 0 (.frameLeaseAcquire 1 2 1 epoch (some (digest none)))),
    .pending (.advance 0),
    .pending (.advance 0),
    .pending (.advance 0)]

/-- It raises the epoch to 1 before it acquires the frame for that epoch. -/
def epochLabels : List Label :=
  registeredLabels ++
    [.pending (.begin 0 (.coreSetEpoch 1 1)),
      .pending (.advance 0),
      ⟨.advance 0, some (.ok, .none)⟩] ++ acquireLabels 1

/-- The transition that ends it. -/
def acquiredLabel : Label := ⟨.advance 0, some (.ok, .none)⟩

def promptLabels : List Label := registeredLabels ++ acquireLabels 0

theorem isSome_promptLabels :
    letI := firstTrackSha256
    (promptLabels.foldlM Process.replayPrompt Process.initial).isSome := by
  decide +kernel

theorem isSome_promptLabels_acquired :
    letI := firstTrackSha256
    (((promptLabels.foldlM Process.replayPrompt Process.initial).get isSome_promptLabels).replay
      acquiredLabel).isSome := by
  decide +kernel

theorem acquires_current_promptLabels :
    letI := firstTrackSha256
    ∃ p p', Runs Process.PromptStep Process.initial promptLabels p ∧ p.Step acquiredLabel p' ∧
      p.AcquiresCurrent acquiredLabel p' ∧ p'.standing 0 2 = some (.acquired, true) := by
  let _ := firstTrackSha256
  have hrun : Runs Process.PromptStep Process.initial promptLabels _ :=
    (Runs.of_foldlM (Option.some_get isSome_promptLabels).symm).mono
      Process.promptStep_of_replayPrompt
  have hstep := Process.step_of_replay (Option.some_get isSome_promptLabels_acquired).symm
  exact ⟨_, _, hrun, hstep, acquires_current hrun hstep, by decide +kernel⟩

theorem isSome_epochLabels :
    letI := firstTrackSha256
    (epochLabels.foldlM Process.replay Process.initial).isSome := by
  decide +kernel

theorem isSome_epochLabels_acquired :
    letI := firstTrackSha256
    (((epochLabels.foldlM Process.replay Process.initial).get isSome_epochLabels).replay
      acquiredLabel).isSome := by
  decide +kernel

/-- A frame of epoch 0 is acquired at epoch 1, one call after the other. -/
theorem acquires_stale_epochLabels :
    letI := firstTrackSha256
    ∃ p p', Runs Process.Step Process.initial epochLabels p ∧ p.Step acquiredLabel p' ∧
      ¬ p.AcquiresCurrent acquiredLabel p' := by
  let _ := firstTrackSha256
  have hrun : Runs Process.Step Process.initial epochLabels _ :=
    (Runs.of_foldlM (Option.some_get isSome_epochLabels).symm).mono Process.step_of_replay
  have hstep := Process.step_of_replay (Option.some_get isSome_epochLabels_acquired).symm
  refine ⟨_, _, hrun, hstep, fun h => ?_⟩
  have hpc : (((epochLabels.foldlM Process.replay Process.initial).get
      isSome_epochLabels).threads 0).pc =
      some (.locked 0 (.transition 2 1 .registered .acquired none)) := by
    decide +kernel
  have hstanding := h.standing hpc
  revert hstanding
  decide +kernel

end Schedule

end StitchEditor.Abi
