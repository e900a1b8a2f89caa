import Mathlib
import StitchEditor.Lib.Fallible
import StitchEditor.Lib.Run
import StitchEditor.Abi.Moves
import StitchEditor.Abi.Record

/-!
# StitchEditor.Abi.Staleness

Which frames are submitted, over every interleaving of the threads.

`stitch_frame_lease_submit` checks a lease under the core's lock, releases
it, and moves the lease to `Submitted` under the lock taken again.  A run in
which nobody changes the epoch or the revision in between submits current
frames only (`submits_current`); one in which somebody does may submit a
stale one (`submits_stale_staleLabels`).
-/

namespace StitchEditor.Abi

open StitchEditor Fallible Run

section Staleness

variable [Sha256]

/-! ## between the check and the transition -/

/-- The thread has checked the lease and is about to move it to
`Submitted`. -/
inductive Process.Submitting (p : Process) (thread : ThreadId) (entry : Nat)
    (id device : UInt64) : Prop
  | lookup {handle : UInt64} {retire : Option UInt64}
      (hpc : (p.threads thread).pc =
        some (.lookup handle (.transition id device .acquired .submitted retire)))
      (hcore : p.cores[handle]? = some entry)
  | locked {retire : Option UInt64}
      (hpc : (p.threads thread).pc =
        some (.locked entry (.transition id device .acquired .submitted retire)))

/-- The action changes the epoch or the revision of the core. -/
def Process.Disturbs (p : Process) (action : Action) (entry : Nat) : Prop :=
  ∃ thread access core, action = .advance thread ∧
    (p.threads thread).pc = some (.locked entry access) ∧ p.heap[entry]? = some core ∧
    access.Disturbs thread core

/-- While a thread is between its check of a lease and the transition that
will submit it, the action leaves epoch and revision of the core alone. -/
def Process.Quiet (p : Process) (action : Action) : Prop :=
  ∀ ⦃thread entry id device core lease⦄, p.Submitting thread entry id device →
    p.heap[entry]? = some core → core.ownedLease thread id device = .ok lease →
    lease.state = .acquired → ¬ p.Disturbs action entry

def Process.QuietStep (p : Process) (label : Label) (p' : Process) : Prop :=
  p.Step label p' ∧ p.Quiet label.action

/-- No lease of the core belongs to the thread. -/
def Process.Unleased (p : Process) (thread : ThreadId) (entry : Nat) : Prop :=
  ∀ ⦃core : CoreState⦄ ⦃id : UInt64⦄ ⦃lease : Lease⦄, p.heap[entry]? = some core →
    core.leases[id]? = some lease → lease.owner ≠ thread

/-- What the thread would move on from the state is current. -/
def Process.VouchedFrom (p : Process) (state : LeaseState) (thread : ThreadId) (entry : Nat)
    (id device : UInt64) : Prop :=
  ∀ ⦃core : CoreState⦄ ⦃lease : Lease⦄, p.heap[entry]? = some core →
    core.ownedLease thread id device = .ok lease → lease.state = state → lease.Current core

/-- What the thread would submit is current. -/
def Process.Vouched (p : Process) (thread : ThreadId) (entry : Nat) (id device : UInt64) : Prop :=
  ∀ ⦃core : CoreState⦄ ⦃lease : Lease⦄, p.heap[entry]? = some core →
    core.ownedLease thread id device = .ok lease → lease.state = .acquired → lease.Current core

/-- What holds where a lease submit stands.  A handle that was given to a new
core meanwhile leads to a core on which the thread has no leases. -/
def Pc.Guarded (p : Process) (thread : ThreadId) (pc : Pc) : Prop :=
  match pc with
  | .lookup handle (.checkSubmit core _ _) => core = handle
  | .locked entry (.checkSubmit core _ _) =>
      ∀ ⦃other : Nat⦄, p.cores[core]? = some other → other = entry ∨ p.Unleased thread other
  | .lookup handle (.transition id device expected .submitted _) =>
      expected = .acquired ∧
        ∀ ⦃entry : Nat⦄, p.cores[handle]? = some entry → p.Vouched thread entry id device
  | .locked entry (.transition id device expected .submitted _) =>
      expected = .acquired ∧ p.Vouched thread entry id device
  | _ => True

/-- The invariant of quiet runs. -/
def Process.Guarded (p : Process) : Prop :=
  ∀ ⦃thread : ThreadId⦄ ⦃pc : Pc⦄, (p.threads thread).pc = some pc → pc.Guarded p thread

variable {p q : Process} {thread other : ThreadId} {action : Action} {entry : Nat}
  {id device : UInt64}

namespace Process

omit [Sha256] in
theorem Vacant.unleased (h : p.Vacant entry) : p.Unleased thread entry := by
  intro core id lease hcore hlease
  simp [h hcore] at hlease

omit [Sha256] in
theorem Unleased.vouchedFrom (h : p.Unleased thread entry) (state : LeaseState) :
    p.VouchedFrom state thread entry id device := by
  intro core lease hcore howned
  obtain ⟨hlease, -, howner⟩ := CoreState.ownedLease_eq_ok_iff.mp howned
  exact absurd howner (h hcore hlease)

omit [Sha256] in
theorem Unleased.vouched (h : p.Unleased thread entry) : p.Vouched thread entry id device :=
  h.vouchedFrom .acquired

theorem Unleased.evolves (h : p.Unleased other entry) (hevolves : p.Evolves thread action q)
    (hne : other ≠ thread) : q.Unleased other entry := by
  intro core' id lease hcore' hlease howner
  rcases hevolves.core hcore' with hempty | ⟨core, hcore, rfl | ⟨access, -, -, haccess⟩⟩
  · simp [hempty] at hlease
  · exact h hcore hlease howner
  · exact h hcore (haccess.others hlease (howner ▸ hne)) howner

/-- What another thread may move on stays current where the step leaves epoch
and revision alone. -/
theorem VouchedFrom.evolves {state : LeaseState} (h : p.VouchedFrom state other entry id device)
    (hevolves : p.Evolves thread action q) (hne : other ≠ thread)
    (hquiet : ∀ core lease, p.heap[entry]? = some core →
      core.ownedLease other id device = .ok lease → lease.state = state →
        ¬ p.Disturbs action entry) : q.VouchedFrom state other entry id device := by
  intro core' lease hcore' howned hstate
  obtain ⟨hlease, hdevice, howner⟩ := CoreState.ownedLease_eq_ok_iff.mp howned
  rcases hevolves.core hcore' with
    hempty | ⟨core, hcore, rfl | ⟨access, haction, hpc, haccess⟩⟩
  · simp [hempty] at hlease
  · exact h hcore howned hstate
  · have howned' : core.ownedLease other id device = .ok lease :=
      CoreState.ownedLease_eq_ok_iff.mpr
        ⟨haccess.others hlease (howner ▸ hne), hdevice, howner⟩
    have hcurrent := h hcore howned' hstate
    rcases haccess.steady with hdisturbs | ⟨hepoch, hrevision⟩
    · exact absurd ⟨thread, access, core, haction, hpc, hcore, hdisturbs⟩
        (hquiet core lease hcore howned' hstate)
    · exact ⟨hcurrent.1.trans hepoch.symm, hcurrent.2.trans hrevision.symm⟩

/-- What another thread may submit stays current in a quiet step. -/
theorem Vouched.evolves (h : p.Vouched other entry id device)
    (hevolves : p.Evolves thread action q) (hne : other ≠ thread) (hquiet : p.Quiet action)
    (hsubmitting : p.Submitting other entry id device) : q.Vouched other entry id device :=
  VouchedFrom.evolves h hevolves hne fun _ _ hcore howned hstate =>
    hquiet hsubmitting hcore howned hstate

end Process

/-- Where another thread stands stays guarded in a quiet step. -/
theorem Pc.Guarded.evolves {pc : Pc} (h : pc.Guarded p other) (hevolves : p.Evolves thread action q)
    (hne : other ≠ thread) (hquiet : p.Quiet action) (hpc : (p.threads other).pc = some pc) :
    pc.Guarded q other := by
  unfold Pc.Guarded at h
  split at h
  · exact h
  · intro place hplace
    rcases hevolves.bound hplace with hbound | hvacant
    · exact (h hbound).imp_right fun hunleased => hunleased.evolves hevolves hne
    · exact .inr hvacant.unleased
  · obtain ⟨rfl, hvouched⟩ := h
    refine ⟨rfl, fun place hplace => ?_⟩
    rcases hevolves.bound hplace with hbound | hvacant
    · exact (hvouched hbound).evolves hevolves hne hquiet (.lookup hpc hbound)
    · exact hvacant.unleased.vouched
  · obtain ⟨rfl, hvouched⟩ := h
    exact ⟨rfl, hvouched.evolves hevolves hne hquiet (.locked hpc)⟩
  · simp_all [Pc.Guarded]

omit [Sha256] in
/-- A call starts before its check. -/
theorem Pc.guarded_of_start {call : Call} {inCallback : Bool} {pc : Pc}
    (h : call.start inCallback = .ok pc) : pc.Guarded p thread := by
  cases call <;> simp only [Call.start, bind_eq_ok_iff, pure_eq_ok_iff] at h <;>
    grind [Pc.Guarded]

/-- The check of a lease leads to the transition of a current one. -/
theorem Pc.Guarded.serves {access : Access} {core core' : CoreState} {next : Pc}
    (h : (Pc.locked entry access).Guarded p thread) (hcore : p.heap[entry]? = some core)
    (haccess : p.Accesses thread entry core access q (.continues next) core') :
    next.Guarded q thread := by
  obtain ⟨hserves, hheap, hcores, -⟩ := haccess
  cases hserves with
  | submit | checkAcquire | retire => trivial
  | checkSubmit hcheck =>
      rw [Process.heap_set_self hcore] at hheap
      obtain ⟨found, hfound, hcurrent⟩ := CoreState.checkSubmit_eq_ok_iff.mp hcheck
      refine ⟨rfl, fun place hplace core' lease hplace' howned hstate => ?_⟩
      rw [hcores] at hplace
      rw [hheap] at hplace'
      rcases h hplace with rfl | hunleased
      · obtain rfl := Option.some.inj (hcore.symm.trans hplace')
        have hlease := (CoreState.ownedLease_eq_ok_iff.mp howned).1
        obtain rfl := Option.some.inj (hfound.symm.trans hlease)
        exact hcurrent
      · exact hunleased.vouched hplace' howned hstate

/-- A thread that stands guarded and runs its section stands guarded
again. -/
theorem Pc.Guarded.executes {pc next : Pc} (h : pc.Guarded p thread)
    (hexecutes : p.Executes thread pc q (.continues next)) : next.Guarded q thread := by
  cases hexecutes with
  | allocateCore | allocateDiff => trivial
  | insertDiff hprogress => split at hprogress <;> cases hprogress
  | locked hcore haccess => exact h.serves hcore haccess
  | @lookup handle access entry hbound =>
      cases access with
      | checkSubmit core lease device =>
          cases h
          intro other hother
          exact .inl (Option.some.inj (hother.symm.trans hbound))
      | transition id device expected state retire =>
          cases state with
          | submitted => exact ⟨h.1, h.2 hbound⟩
          | registered | acquired | completed | retired => trivial
      | _ => trivial

/-- The thread that moves. -/
theorem Process.Moves.guarded {next : Option Pc} {pc : Pc} (hmoves : p.Moves thread action q next)
    (h : p.Guarded) (hnext : next = some pc) : pc.Guarded q thread := by
  cases hmoves with
  | stop => cases hnext
  | start hstart =>
      cases hnext
      exact Pc.guarded_of_start hstart
  | exec hpc hexec hprogress =>
      cases hprogress _ hnext
      exact (h hpc).executes (Process.exec_executes hexec)

/-- **One step** of a quiet run keeps the invariant. -/
theorem Process.Guarded.step {p' : Process} {label : Label} (h : p.Guarded)
    (hstep : p.QuietStep label p') : p'.Guarded := by
  obtain ⟨hstep, hquiet⟩ := hstep
  obtain ⟨thread, q, state, rfl, hmoves⟩ := hstep.moves
  intro other pc hpc
  change pc.Guarded q other
  simp only [Process.setThread, Function.update_apply] at hpc
  split at hpc
  · next hthread => exact hthread ▸ hmoves.guarded h hpc
  · next hne =>
    rw [hmoves.evolves.threads] at hpc
    exact Pc.Guarded.evolves (h hpc) hmoves.evolves hne hquiet hpc

omit [Sha256] in
theorem Process.guarded_initial : Process.initial.Guarded := by
  intro thread pc hpc
  cases hpc

/-! ## what is submitted -/

/-- Every lease that the step moves to `Submitted` has the epoch and the
revision of its core. -/
def Process.SubmitsCurrent (p p' : Process) : Prop :=
  ∀ {entry : Nat} {core : CoreState} {id : UInt64} {lease : Lease},
    p'.heap[entry]? = some core → core.leases[id]? = some lease → lease.state = .submitted →
    (∀ old before, p.heap[entry]? = some old → old.leases[id]? = some before →
      before.state ≠ .submitted) →
    lease.Current core

/-- **One step** from a guarded process. -/
theorem Process.Guarded.submitsCurrent {p' : Process} {label : Label} (h : p.Guarded)
    (hstep : p.Step label p') : p.SubmitsCurrent p' := by
  obtain ⟨thread, q, state, rfl, hmoves⟩ := hstep.moves
  intro entry core' id lease hcore' hlease hstate hbefore
  rcases hmoves.evolves.core hcore' with hempty | ⟨core, hcore, rfl | ⟨access, -, hpc, haccess⟩⟩
  · simp [hempty] at hlease
  · exact absurd hstate (hbefore _ _ hcore hlease)
  · rcases haccess.submitted hlease hstate with
      hold | ⟨before, ⟨device, expected, retire, rfl, howned, hexpected⟩, hepoch, hrevision⟩
    · exact absurd hstate (hbefore _ _ hcore hold)
    · obtain ⟨rfl, hvouched⟩ := h hpc
      have hcurrent := hvouched hcore howned hexpected
      -- a transition leaves epoch and revision of the core alone
      rcases haccess.steady with hdisturbs | ⟨hepoch', hrevision'⟩
      · cases hdisturbs
      · exact ⟨hepoch.trans (hcurrent.1.trans hepoch'.symm),
          hrevision.trans (hcurrent.2.trans hrevision'.symm)⟩

/-- **Current frames only**: in a quiet run every frame is current at the
step that submits it. -/
theorem submits_current {labels : List Label} {p p' : Process} {label : Label}
    (hrun : Runs Process.QuietStep Process.initial labels p) (hstep : p.Step label p') :
    p.SubmitsCurrent p' :=
  (hrun.invariant Process.guarded_initial Process.Guarded.step).submitsCurrent hstep

/-- A disturbance succeeds. -/
theorem Access.Disturbs.access_eq_ok {access : Access} {core : CoreState}
    (h : access.Disturbs thread core) :
    ∃ core' progress, p.access thread entry core access = .ok (p.setCore entry core', progress) ∧
      core'.leases = core.leases ∧
      (core'.epoch ≠ core.epoch ∨ core'.revision ≠ core.revision) := by
  cases access with
  | setEpoch epoch =>
      obtain ⟨howner, hlt⟩ := h
      have hset : core.setEpoch thread epoch = .ok { core with epoch := epoch } :=
        CoreState.setEpoch_eq_ok_iff.mpr ⟨howner, UInt64.le_of_lt hlt, rfl⟩
      refine ⟨{ core with epoch := epoch }, .finished .ok .none, ?_, rfl,
        .inl (UInt64.ne_of_lt hlt).symm⟩
      simp only [Process.access, hset]
      rfl
  | submit batch callback =>
      obtain ⟨core', metadata, hsubmit, hne⟩ := h
      obtain ⟨next, rfl⟩ := CoreState.submit_eq_ok hsubmit
      refine ⟨{ core with history := next }, .continues (.allocateDiff metadata callback), ?_, rfl,
        .inr hne⟩
      simp only [Process.access, hsubmit]
      rfl
  | _ => exact h.elim

/-- After a disturbance the leases are as before, and those that were current
no longer are. -/
theorem Process.Disturbs.step {p' : Process} {label : Label} {core : CoreState}
    (h : p.Disturbs label.action entry) (hcore : p.heap[entry]? = some core)
    (hstep : p.Step label p') :
    ∃ thread access core', (p.threads thread).pc = some (.locked entry access) ∧
      access.Disturbs thread core ∧ p'.heap[entry]? = some core' ∧
      core'.leases = core.leases ∧
      (core'.epoch ≠ core.epoch ∨ core'.revision ≠ core.revision) ∧
      ∀ other ≠ thread, p'.threads other = p.threads other := by
  obtain ⟨thread, access, found, haction, hpc, hfound, hdisturbs⟩ := h
  rw [hcore] at hfound
  cases hfound
  obtain ⟨core', progress, haccess, hleases, hchanged⟩ := hdisturbs.access_eq_ok
  have hexec : p.exec thread (.locked entry access) = .ok (p.setCore entry core', progress) := by
    simpa only [Process.exec, hcore] using haccess
  have hstep' : p.step (.advance thread) = some _ := Process.Step.of_exec hpc hexec
  rw [Process.Step, haction, hstep'] at hstep
  obtain ⟨rfl, -⟩ := Prod.mk.inj (Option.some.inj hstep)
  obtain ⟨hlt, -⟩ := List.getElem?_eq_some_iff.mp hcore
  have hheap : (p.heap.set entry core')[entry]? = some core' := List.getElem?_set_self hlt
  exact ⟨thread, access, core', hpc, hdisturbs, hheap, hleases, hchanged,
    fun other hne => Function.update_of_ne hne _ _⟩

/-- A thread before its transition can submit the lease, whether or not it is
current. -/
theorem Process.exists_step_submits {retire : Option UInt64} {core : CoreState} {lease : Lease}
    (hpc : (p.threads thread).pc =
      some (.locked entry (.transition id device .acquired .submitted retire)))
    (hcore : p.heap[entry]? = some core) (howned : core.ownedLease thread id device = .ok lease)
    (hstate : lease.state = .acquired) :
    ∃ label p' core' lease', p.Step label p' ∧ p'.heap[entry]? = some core' ∧
      core'.leases[id]? = some lease' ∧ lease'.state = .submitted ∧
      (lease'.Current core' ↔ lease.Current core) := by
  obtain ⟨core', lease', htransition, hlease', hsubmitted, hcurrent⟩ :=
    CoreState.exists_leaseTransition .submitted howned
  rw [hstate] at htransition
  obtain ⟨progress, hexec⟩ : ∃ progress, p.exec thread
      (.locked entry (.transition id device .acquired .submitted retire)) =
        .ok (p.setCore entry core', progress) := by
    simp only [Process.exec, hcore, Process.access, htransition]
    exact ⟨_, rfl⟩
  obtain ⟨hlt, -⟩ := List.getElem?_eq_some_iff.mp hcore
  have hheap : (p.heap.set entry core')[entry]? = some core' := List.getElem?_set_self hlt
  exact ⟨_, _, core', lease', .of_exec hpc hexec, hheap, hlease', hsubmitted, hcurrent⟩

/-- **The condition on quiet runs is needed**: once the core is disturbed,
the thread that stands before the transition can submit a stale lease. -/
theorem Process.Guarded.submits_stale {p' : Process} {label : Label} {retire : Option UInt64}
    {core : CoreState} {lease : Lease} (h : p.Guarded)
    (hpc : (p.threads other).pc =
      some (.locked entry (.transition id device .acquired .submitted retire)))
    (hcore : p.heap[entry]? = some core) (howned : core.ownedLease other id device = .ok lease)
    (hstate : lease.state = .acquired) (hstep : p.Step label p')
    (hdisturbs : p.Disturbs label.action entry) :
    ∃ label' p'', p'.Step label' p'' ∧ ¬ p'.SubmitsCurrent p'' := by
  obtain ⟨thread, access, core', hpc', haccess, hcore', hleases, hchanged, hthreads⟩ :=
    hdisturbs.step hcore hstep
  have hne : other ≠ thread := by
    rintro rfl
    rw [hpc] at hpc'
    cases hpc'
    exact haccess
  have howned' : core'.ownedLease other id device = .ok lease := by
    rw [CoreState.ownedLease_eq_ok_iff] at howned ⊢
    rwa [hleases]
  rw [← hthreads other hne] at hpc
  obtain ⟨label', p'', core'', lease', hstep', hcore'', hlease', hsubmitted, hcurrent⟩ :=
    Process.exists_step_submits hpc hcore' howned' hstate
  refine ⟨label', p'', hstep', fun hfresh => ?_⟩
  have hbefore : ∀ old before, p'.heap[entry]? = some old → old.leases[id]? = some before →
      before.state ≠ .submitted := by
    intro old before hold hbefore
    rw [hcore'] at hold
    cases hold
    rw [(CoreState.ownedLease_eq_ok_iff.mp howned').1] at hbefore
    cases hbefore
    simp [hstate]
  have hlease := hcurrent.mp (hfresh hcore'' hlease' hsubmitted hbefore)
  -- the lease was current before the disturbance, too
  rw [hthreads other hne] at hpc
  obtain ⟨hepoch, hrevision⟩ := (h hpc).2 hcore howned hstate
  rcases hchanged with hne | hne
  · exact hne (hlease.1.symm.trans hepoch)
  · exact hne (hlease.2.symm.trans hrevision)

/-! ## replaying a schedule -/

/-- A replayed step that is certain to disturb no core. -/
def Process.replayStill (self : Process) (label : Label) : Option Process :=
  match label.action with
  | .advance thread => match (self.threads thread).pc with
    | some (.locked _ (.setEpoch _)) | some (.locked _ (.submit _ _)) => none
    | _ => self.replay label
  | _ => self.replay label

theorem Process.still_of_replayStill {p' : Process} {label : Label}
    (h : p.replayStill label = some p') :
    p.Step label p' ∧ ∀ entry, ¬ p.Disturbs label.action entry := by
  unfold Process.replayStill at h
  split at h
  · next haction =>
    split at h
    · cases h
    · cases h
    · next hepoch hsubmit =>
      refine ⟨Process.step_of_replay h, fun _ hdisturbs => ?_⟩
      obtain ⟨thread, access, core, heq, hpc, -, hdisturbs⟩ := hdisturbs
      rw [haction] at heq
      cases heq
      cases access with
      | setEpoch epoch => exact hepoch _ _ hpc
      | submit batch callback => exact hsubmit _ _ _ hpc
      | _ => exact hdisturbs
  · next hadvance =>
    refine ⟨Process.step_of_replay h, fun _ hdisturbs => ?_⟩
    obtain ⟨thread, -, -, heq, -⟩ := hdisturbs
    exact hadvance thread heq

theorem Process.quietStep_of_replayStill {p' : Process} {label : Label}
    (h : p.replayStill label = some p') : p.QuietStep label p' := by
  obtain ⟨hstep, hstill⟩ := Process.still_of_replayStill h
  exact ⟨hstep, fun _ _ _ _ _ _ _ _ _ _ => hstill _⟩

/-- The state of a lease, and whether it is current. -/
def Process.standing (self : Process) (entry : Nat) (id : UInt64) : Option (LeaseState × Bool) :=
  match self.heap[entry]? with
  | none => none
  | some core => core.leases[id]?.map fun lease => (lease.state, decide (lease.Current core))

omit [Sha256] in
theorem Process.standing_eq_some_iff {state : LeaseState} {current : Bool} :
    p.standing entry id = some (state, current) ↔
      ∃ core lease, p.heap[entry]? = some core ∧ core.leases[id]? = some lease ∧
        lease.state = state ∧ decide (lease.Current core) = current := by
  unfold Process.standing
  cases p.heap[entry]? with
  | none => simp
  | some core => simp

omit [Sha256] in
/-- What a step submits stands as current. -/
theorem Process.SubmitsCurrent.standing {p' : Process} (h : p.SubmitsCurrent p')
    {state : LeaseState} {current current' : Bool}
    (hbefore : p.standing entry id = some (state, current)) (hstate : state ≠ .submitted)
    (hafter : p'.standing entry id = some (.submitted, current')) : current' = true := by
  obtain ⟨core, before, hcore, hlease, rfl, -⟩ := Process.standing_eq_some_iff.mp hbefore
  obtain ⟨core', lease, hcore', hlease', hsubmitted, rfl⟩ := Process.standing_eq_some_iff.mp hafter
  refine decide_eq_true (h hcore' hlease' hsubmitted fun old found hold hfound => ?_)
  obtain rfl := Option.some.inj (hcore.symm.trans hold)
  obtain rfl := Option.some.inj (hlease.symm.trans hfound)
  exact hstate

end Staleness

section Schedule

def frame : StitchFrameMetadata where
  header := header frameMetadataSize
  leaseId := 0
  revision := digest none
  epoch := 0
  deviceGeneration := 1
  surfaceToken := 1
  synchronizationToken := 0
  ownerThreadToken := 0
  pixelWidth := 1
  pixelHeight := 1
  pixelFormat := 1
  synchronizationKind := 1
  synchronizationValue := 0
  presentationTime := ⟨0, 1⟩
  state := 1
  reserved := 0

/-- Thread 0 creates the core 1; thread 1 registers the frame 2, acquires it
and runs the check of its submit. -/
def checkedLabels : List Label :=
  [.pending (.begin 0 (.coreCreate (some ⟨header coreConfigSize, 0⟩) true)),
    .pending (.advance 0),
    ⟨.advance 0, some (.ok, .handle 1)⟩,
    .pending (.begin 1 (.frameLeaseRegister 1 (some frame) true)),
    .pending (.advance 1),
    ⟨.advance 1, some (.ok, .handle 2)⟩,
    .pending (.begin 1 (.frameLeaseAcquire 1 2 1 0 (some (digest none)))),
    .pending (.advance 1),
    .pending (.advance 1),
    .pending (.advance 1),
    ⟨.advance 1, some (.ok, .none)⟩,
    .pending (.begin 1 (.frameLeaseSubmit 1 2 1)),
    .pending (.advance 1),
    .pending (.advance 1)]

/-- Thread 0 raises the epoch to 1 before thread 1 finds the core again. -/
def staleLabels : List Label :=
  checkedLabels ++
    [.pending (.begin 0 (.coreSetEpoch 1 1)),
      .pending (.advance 0),
      ⟨.advance 0, some (.ok, .none)⟩,
      .pending (.advance 1)]

def freshLabels : List Label := checkedLabels ++ [.pending (.advance 1)]

/-- The transition. -/
def transitionLabel : Label := ⟨.advance 1, some (.ok, .none)⟩

theorem isSome_freshLabels :
    letI := firstTrackSha256
    (freshLabels.foldlM Process.replayStill Process.initial).isSome := by
  decide +kernel

theorem isSome_freshLabels_transition :
    letI := firstTrackSha256
    (((freshLabels.foldlM Process.replayStill Process.initial).get isSome_freshLabels).replay
      transitionLabel).isSome := by
  decide +kernel

theorem submits_current_freshLabels :
    letI := firstTrackSha256
    ∃ p p', Runs Process.QuietStep Process.initial freshLabels p ∧ p.Step transitionLabel p' ∧
      p.SubmitsCurrent p' ∧ p.standing 0 2 = some (.acquired, true) ∧
      p'.standing 0 2 = some (.submitted, true) := by
  let _ := firstTrackSha256
  have hrun : Runs Process.QuietStep Process.initial freshLabels _ :=
    (Runs.of_foldlM (Option.some_get isSome_freshLabels).symm).mono
      Process.quietStep_of_replayStill
  have hstep := Process.step_of_replay (Option.some_get isSome_freshLabels_transition).symm
  exact ⟨_, _, hrun, hstep, submits_current hrun hstep, by decide +kernel, by decide +kernel⟩

theorem isSome_staleLabels :
    letI := firstTrackSha256
    (staleLabels.foldlM Process.replay Process.initial).isSome := by
  decide +kernel

theorem isSome_staleLabels_transition :
    letI := firstTrackSha256
    (((staleLabels.foldlM Process.replay Process.initial).get isSome_staleLabels).replay
      transitionLabel).isSome := by
  decide +kernel

theorem submits_stale_staleLabels :
    letI := firstTrackSha256
    ∃ p p', Runs Process.Step Process.initial staleLabels p ∧ p.Step transitionLabel p' ∧
      ¬ p.SubmitsCurrent p' := by
  let _ := firstTrackSha256
  have hrun : Runs Process.Step Process.initial staleLabels _ :=
    (Runs.of_foldlM (Option.some_get isSome_staleLabels).symm).mono Process.step_of_replay
  have hstep := Process.step_of_replay (Option.some_get isSome_staleLabels_transition).symm
  refine ⟨_, _, hrun, hstep, fun h => ?_⟩
  have hcurrent : false = true :=
    h.standing (by decide +kernel : Process.standing _ 0 2 = some (.acquired, false)) (by decide)
      (by decide +kernel)
  cases hcurrent

end Schedule

end StitchEditor.Abi
