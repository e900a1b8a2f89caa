import Mathlib
import StitchEditor.Abi.Counting
import StitchEditor.Abi.Submission

/-!
# StitchEditor.Abi.Reentrancy

Calls from inside the callback of a submit.

A thread in a callback runs only sections that read, or that create a core
(`Recorded.readOnly`), and so leaves every core as it is; calls that would
change one are refused before their first section (`Call.start_mutates`).
The core that the submit has edited stays as its batch left it, since only
its owner edits it, who is in the callback (`Recorded.batch`).
-/

namespace StitchEditor.Abi

open StitchEditor Fallible Run Counted

/-! ## the guard -/

/-- The call changes a core, or destroys it. -/
def Call.Mutates : Call → Prop
  | .coreDestroy _ => True
  | .coreSetEpoch _ _ => True
  | .coreSubmit _ _ _ _ => True
  | .frameLeaseRegister _ _ _ => True
  | .frameLeaseAcquire _ _ _ _ _ => True
  | .frameLeaseDiscard _ _ _ => True
  | .frameLeaseSubmit _ _ _ => True
  | .frameLeaseComplete _ _ _ => True
  | .frameLeaseRetire _ _ _ => True
  | _ => False

/-- The output pointers of the call are valid. -/
def Call.Writable : Call → Prop
  | .coreSubmit _ _ _ outDiff => outDiff = true
  | .frameLeaseRegister _ _ outLease => outLease = true
  | _ => True

/-- **The guard**: all nine entry points that mutate have it. -/
theorem Call.start_mutates {call : Call} (hmutates : call.Mutates) (hwritable : call.Writable) :
    call.start true = .error .reentrantMutation := by
  cases call with
  | coreSubmit core batch callback outDiff =>
      obtain rfl : outDiff = true := hwritable
      rfl
  | coreDestroy | coreSetEpoch | frameLeaseRegister | frameLeaseAcquire | frameLeaseDiscard
  | frameLeaseSubmit | frameLeaseComplete | frameLeaseRetire => rfl
  | _ => exact hmutates.elim

/-- Nothing else is refused so, and nothing outside a callback. -/
theorem Call.mutates_of_start {call : Call} {inCallback : Bool}
    (h : call.start inCallback = .error .reentrantMutation) : inCallback = true ∧ call.Mutates := by
  have hfails : call.start inCallback = call.start false → inCallback = true ∧ call.Mutates :=
    fun hsame => absurd rfl (call.raises_start _ (hsame.symm.trans h)).2
  cases inCallback with
  | false => exact hfails rfl
  | true =>
      cases call with
      | coreCreate | coreSnapshot | snapshotRetain | snapshotRelease | snapshotMetadataGet
      | diffRetain | diffRelease | diffMetadataGet | frameLeaseMetadataGet => exact hfails rfl
      | _ => exact ⟨rfl, trivial⟩

/-! ## sections that read -/

/-- The access changes nothing of the core. -/
def Access.ReadOnly : Access → Prop
  | .snapshot => True
  | .metadataGet _ _ => True
  | _ => False

/-- The section changes no core. -/
def Pc.ReadOnly : Pc → Prop
  | .destroy _ => False
  | .lookup _ access => access.ReadOnly
  | .locked _ access => access.ReadOnly
  | .allocateDiff _ _ => False
  | .insertDiff _ _ _ => False
  | _ => True

theorem Pc.readOnly_of_start {call : Call} {pc : Pc} (h : call.start true = .ok pc) :
    pc.ReadOnly := by
  cases call with
  | coreCreate config outCore =>
      simp only [Call.start, bind_eq_ok_iff, pure_eq_ok_iff] at h
      obtain ⟨_, -, _, -, _, -, rfl⟩ := h
      trivial
  | coreSnapshot core outSnapshot =>
      simp only [Call.start, bind_eq_ok_iff, pure_eq_ok_iff] at h
      obtain ⟨_, -, rfl⟩ := h
      trivial
  | coreSubmit core batch callback outDiff =>
      cases outDiff <;> cases h
  | snapshotRetain | snapshotRelease | snapshotMetadataGet | diffRetain | diffRelease
  | diffMetadataGet | frameLeaseMetadataGet =>
      cases h
      trivial
  | _ => cases h

section Reentrancy

variable [Sha256]

variable {p p' q : Process} {tr : Transition} {trs : List Transition} {thread : ThreadId}
  {pc : Pc} {progress : Progress}

/-- Sections that read lead to others that do. -/
theorem Pc.ReadOnly.executes {pc' : Pc} (h : pc.ReadOnly)
    (hexecutes : p.Executes thread pc q (.continues pc')) : pc'.ReadOnly := by
  cases hexecutes with
  | allocateCore => trivial
  | lookup _ => exact h
  | allocateDiff => exact h.elim
  | insertDiff _ => exact h.elim
  | locked _ haccess => cases haccess.serves <;> exact h.elim

/-- **Inside a callback a thread only reads.** -/
theorem Recorded.readOnly (hrun : Recorded trs p) (hcallback : (p.threads thread).callback.isSome)
    (hpc : (p.threads thread).pc = some pc) : pc.ReadOnly := by
  refine hrun.invariant (I := fun _ p => ∀ thread pc, (p.threads thread).callback.isSome →
    (p.threads thread).pc = some pc → pc.ReadOnly) (fun _ _ hcallback => by cases hcallback) ?_
    thread pc hcallback hpc
  intro trs p tr p' _ ih hjoins thread pc hcallback hpc
  by_cases hthread : thread = tr.label.action.thread
  · obtain ⟨before, label, after⟩ := tr
    obtain ⟨rfl, rfl, hstep⟩ := hjoins
    have htakes : before.Takes label after := hstep.takes
    cases htakes with
    | reject _ _ => exact ih thread pc hcallback hpc
    | start _ hstart =>
        obtain rfl : thread = _ := hthread
        simp only [Process.setThread, Function.update_self, Option.some.injEq] at hcallback hpc
        subst hpc
        rw [hcallback] at hstart
        exact Pc.readOnly_of_start hstart
    | fail _ _ | endCallback _ =>
        obtain rfl : thread = _ := hthread
        simp [Process.setThread] at hpc
    | @run _ pc₀ q progress hpc₀ hexecutes =>
        obtain rfl : thread = _ := hthread
        simp only [Process.setThread, Function.update_self] at hcallback hpc
        cases progress with
        | finished result output | callback diff => cases hpc
        | continues next =>
            cases hpc
            exact (ih _ pc₀ hcallback hpc₀).executes hexecutes
  · rw [hjoins.threads_ne hthread] at hcallback hpc
    exact ih thread pc hcallback hpc

/-- The cores that are there stay as they are. -/
def Transition.KeepsCores (tr : Transition) : Prop :=
  ∀ (entry : Nat) (core : CoreState), tr.before.heap[entry]? = some core →
    tr.after.heap[entry]? = some core

/-- The handles of the registry keep their cores. -/
def Transition.KeepsRegistry (tr : Transition) : Prop :=
  ∀ (handle : UInt64) (entry : Nat), tr.before.cores[handle]? = some entry →
    tr.after.cores[handle]? = some entry

/-- A section that reads leaves the cores alone. -/
theorem Pc.ReadOnly.heap (h : pc.ReadOnly) (hexecutes : p.Executes thread pc q progress)
    {entry : Nat} {core : CoreState} (hcore : p.heap[entry]? = some core) :
    q.heap[entry]? = some core := by
  cases hexecutes with
  | allocateCore | lookup _ | counted _ _ => exact hcore
  | insertCore =>
      have hlt := (List.getElem?_eq_some_iff.mp hcore).1
      rwa [List.getElem?_append_left hlt]
  | destroy | allocateDiff | insertDiff _ => exact h.elim
  | @locked entry' access core₁ core₂ _ _ hfound haccess =>
      have hsame : core₂ = core₁ := by
        cases haccess.serves with
        | snapshot | metadataGet _ => rfl
        | _ => exact h.elim
      obtain ⟨hlt, hfound⟩ := List.getElem?_eq_some_iff.mp hfound
      rw [haccess.heap, hsame, ← hfound, List.set_getElem_self]
      exact hcore

/-- **From inside a callback no core is changed.** -/
theorem Recorded.keepsCores (hrun : Recorded trs p) (hjoins : Transition.Joins p tr p')
    (hcallback : (p.threads tr.label.action.thread).callback.isSome) : tr.KeepsCores := by
  intro entry core hcore
  obtain ⟨before, label, after⟩ := tr
  obtain ⟨rfl, rfl, hstep⟩ := hjoins
  have htakes : before.Takes label after := hstep.takes
  cases htakes with
  | reject _ _ | start _ _ | fail _ _ | endCallback _ => exact hcore
  | run hpc hexecutes => exact (hrun.readOnly hcallback hpc).heap hexecutes hcore

/-- A core that is about to enter the registry gets a new handle. -/
theorem Recorded.unbound_of_insertCore (hrun : Recorded trs p)
    (hfew : allocations trs < 2 ^ 64 - 1) {handle epoch : UInt64}
    (hpc : (p.threads thread).pc = some (.insertCore handle epoch)) : p.cores[handle]? = none := by
  have hheld : (p.threads thread).held? .pc = some handle := by
    simp [Thread.held?, hpc, Pc.handle?]
  rw [Option.eq_none_iff_forall_ne_some]
  intro entry hbound
  exact (hrun.issued hfew).held_new hheld (hrun.mem_returned_of_bound hbound)

/-- While handles are new, a handle leads to its core until that is destroyed. -/
theorem Recorded.keepsBound (hrun : Recorded trs p) (hfew : allocations trs < 2 ^ 64 - 1)
    (hjoins : Transition.Joins p tr p') {handle : UInt64} {entry : Nat}
    (hbound : p.cores[handle]? = some entry) :
    p'.cores[handle]? = some entry ∨ ∃ core, p.heap[entry]? = some core ∧
      tr.label.action = .advance core.owner ∧
      (p.threads core.owner).pc = some (.destroy handle) := by
  have hregistry := hjoins.atRegistry
  obtain ⟨rfl, rfl, -⟩ := hjoins
  cases hregistry with
  | keeps hcores _ => exact .inl (hcores ▸ hbound)
  | creates haction hpc hcores _ =>
      have hunbound := hrun.unbound_of_insertCore hfew hpc
      left
      rw [hcores]
      refine Table.getElem?_insert_eq_some_iff.mpr (.inr ⟨?_, hbound⟩)
      rintro rfl
      rw [hbound] at hunbound
      cases hunbound
  | @destroys thread other entry' core haction hpc hbound' hcore howner _ hcores _ =>
      subst howner
      by_cases hsame : handle = other
      · subst hsame
        obtain rfl := Option.some.inj (hbound.symm.trans hbound')
        exact .inr ⟨core, hcore, haction, hpc⟩
      · left
        rw [hcores]
        exact Table.getElem?_erase_eq_some_iff.mpr ⟨hsame, hbound⟩

/-- **From inside a callback no core is removed**, as long as handles are
new. -/
theorem Recorded.keepsRegistry (hrun : Recorded trs p) (hfew : allocations trs < 2 ^ 64 - 1)
    (hjoins : Transition.Joins p tr p')
    (hcallback : (p.threads tr.label.action.thread).callback.isSome) : tr.KeepsRegistry := by
  intro handle entry hbound
  rw [hjoins.before] at hbound
  rw [hjoins.after]
  obtain hkeeps | ⟨core, -, haction, hpc⟩ := hrun.keepsBound hfew hjoins hbound
  · exact hkeeps
  · rw [haction] at hcallback
    exact (hrun.readOnly hcallback hpc).elim

/-! ## after the batch -/

/-- The thread neither edits a core nor destroys one. -/
def Pc.Calm : Pc → Prop
  | .destroy _ => False
  | .locked _ access => ¬ access.Edits
  | _ => True

omit [Sha256] in
theorem Pc.ReadOnly.calm (h : pc.ReadOnly) : pc.Calm := by
  cases pc with
  | destroy handle => exact h
  | locked entry access => cases access <;> first | exact h.elim | exact id
  | _ => trivial

omit [Sha256] in
theorem Pc.calm_of_metadata? {metadata : StitchDiffMetadata} (h : pc.metadata? = some metadata) :
    pc.Calm := by
  cases pc with
  | allocateDiff | insertDiff => trivial
  | _ => cases h

/-- The core that the transition submits to is as its batch left it. -/
structure Transition.Stands (tr : Transition) (p : Process) (thread : ThreadId) (entry : Nat)
    (metadata : StitchDiffMetadata) (core' : CoreState) : Prop where
  serves : ∃ batch callback core, tr.Serves entry thread (.submit batch callback) core core'
    (.continues (.allocateDiff metadata callback))
  core : ∃ now, p.heap[entry]? = some now ∧ now.owner = thread ∧ now.history = core'.history ∧
    now.epoch = core'.epoch
  bound : ∀ (handle : UInt64), tr.before.cores[handle]? = some entry → p.cores[handle]? = some entry

/-- A batch stands as it is accepted. -/
theorem Transition.Stands.of_submit {entry : Nat} {batch : StitchCommandBatch} {callback : Bool}
    {metadata : StitchDiffMetadata} {core core' : CoreState}
    (hserves : tr.Serves entry thread (.submit batch callback) core core'
      (.continues (.allocateDiff metadata callback))) :
    tr.Stands tr.after thread entry metadata core' where
  serves := ⟨batch, callback, core, hserves⟩
  core := by
    refine ⟨core', hserves.after, ?_, rfl, rfl⟩
    cases hserves.serves with
    | submit hsubmit =>
        have haccepts := CoreState.submit_eq_ok_iff.mp hsubmit
        rw [haccepts.keeps]
        exact haccepts.owner
  bound handle hbound := by rwa [hserves.cores]

/-- It stays so while its owner is calm. -/
theorem Transition.Stands.joins {submit : Transition} {entry : Nat}
    {metadata : StitchDiffMetadata} {core' : CoreState}
    (h : submit.Stands p thread entry metadata core') (hrun : Recorded trs p)
    (hfew : allocations trs < 2 ^ 64 - 1) (hjoins : Transition.Joins p tr p')
    (hcalm : ∀ pc, (p.threads thread).pc = some pc → pc.Calm) :
    submit.Stands p' thread entry metadata core' := by
  obtain ⟨now, hnow, howner, hhistory, hepoch⟩ := h.core
  refine ⟨h.serves, ?_, fun handle hbefore => ?_⟩
  · have hon := hjoins.on entry
    obtain ⟨rfl, rfl, -⟩ := hjoins
    obtain ⟨other, access, next, progress, hserves⟩ | ⟨-, hafter⟩ := hon.of_found hnow
    · refine ⟨next, hserves.after, hserves.serves.owner_epoch.1.trans howner, ?_⟩
      obtain ⟨hedits, hother⟩ | ⟨hepoch', hhistory'⟩ := hserves.serves.edits
      · -- only the owner edits the core, and it is calm
        obtain rfl := howner.symm.trans hother
        exact absurd hedits (hcalm _ hserves.pc)
      · exact ⟨hhistory'.trans hhistory, hepoch'.trans hepoch⟩
    · exact ⟨now, hafter, howner, hhistory, hepoch⟩
  · obtain hkeeps | ⟨core, hcore, -, hpc⟩ := hrun.keepsBound hfew hjoins (h.bound handle hbefore)
    · exact hkeeps
    · obtain rfl := Option.some.inj (hnow.symm.trans hcore)
      subst howner
      exact (hcalm _ hpc).elim

/-- The thread gets a batch accepted. -/
def Transition.Submits (tr : Transition) (thread : ThreadId) : Prop :=
  ∃ entry batch callback core core' progress,
    tr.Serves entry thread (.submit batch callback) core core' progress

/-- A thread that is calm gets no batch accepted. -/
theorem Transition.not_submits_of_calm
    (hcalm : ∀ pc, (tr.before.threads thread).pc = some pc → pc.Calm) : ¬ tr.Submits thread := by
  rintro ⟨entry, batch, callback, core, core', progress, hserves⟩
  exact hcalm _ hserves.pc trivial

/-- The thread has submitted a batch, none since then, and the core stands as
the batch left it; `back` is the run since. -/
def AfterBatch (trs back : List Transition) (p : Process) (thread : ThreadId)
    (metadata : StitchDiffMetadata) : Prop :=
  ∃ front submit, trs = front ++ submit :: back ∧ (∀ tr ∈ back, ¬ tr.Submits thread) ∧
    ∃ entry core', submit.Stands p thread entry metadata core'

theorem AfterBatch.joins {back : List Transition} {metadata : StitchDiffMetadata}
    (h : AfterBatch trs back p thread metadata) (hrun : Recorded trs p)
    (hfew : allocations trs < 2 ^ 64 - 1) (hjoins : Transition.Joins p tr p')
    (hcalm : ∀ pc, (p.threads thread).pc = some pc → pc.Calm) :
    AfterBatch (trs ++ [tr]) (back ++ [tr]) p' thread metadata := by
  obtain ⟨front, submit, rfl, hlast, entry, core', hstands⟩ := h
  refine ⟨front, submit, by simp, ?_, entry, core', hstands.joins hrun hfew hjoins hcalm⟩
  intro other hother
  rw [List.mem_append, List.mem_singleton] at hother
  obtain hback | rfl := hother
  · exact hlast other hback
  · exact Transition.not_submits_of_calm (hjoins.before ▸ hcalm)

/-- What is known of a thread that ends a submit, with its callback. -/
structure Batched (trs : List Transition) (p : Process) : Prop where
  carried : ∀ ⦃thread pc metadata⦄, (p.threads thread).pc = some pc →
    pc.metadata? = some metadata → ∃ back, AfterBatch trs back p thread metadata
  callback : ∀ ⦃thread diff⦄, (p.threads thread).callback = some diff →
    ∃ metadata back, .create diff metadata ∈ diffKind.events back ∧
      AfterBatch trs back p thread metadata

/-- **The batch stands** until the submit returns. -/
theorem Recorded.batched (hrun : Recorded trs p) (hfew : allocations trs < 2 ^ 64 - 1) :
    Batched trs p := by
  refine hrun.invariant_of_few hfew ⟨?_, ?_⟩ ?_
  · intro thread pc metadata hpc
    cases hpc
  · intro thread diff hcallback
    cases hcallback
  intro trs p tr p' hrun hfew _ ih hjoins
  -- a thread that carries a diff, or is in its callback, is calm
  have hcarried : ∀ {thread pc metadata}, (p.threads thread).pc = some pc →
      pc.metadata? = some metadata →
        ∃ back, AfterBatch (trs ++ [tr]) (back ++ [tr]) p' thread metadata := by
    intro thread pc metadata hpc hmetadata
    obtain ⟨back, hbatch⟩ := ih.carried hpc hmetadata
    refine ⟨back, hbatch.joins hrun hfew hjoins fun pc' hpc' => ?_⟩
    obtain rfl := Option.some.inj (hpc.symm.trans hpc')
    exact Pc.calm_of_metadata? hmetadata
  refine ⟨fun thread pc metadata hpc hmetadata => ?_, fun thread diff hcallback => ?_⟩
  · obtain ⟨pc₀, hpc₀, hmetadata₀⟩ | ⟨entry, batch, callback, core, core', hserves⟩ :=
      hjoins.carried hpc hmetadata
    · obtain ⟨back, hbatch⟩ := hcarried hpc₀ hmetadata₀
      exact ⟨back ++ [tr], hbatch⟩
    · exact ⟨[], trs, tr, rfl, by simp, entry, core', hjoins.after ▸ .of_submit hserves⟩
  · obtain hbefore | ⟨metadata, hpc, hcreate⟩ := hjoins.in_callback hcallback
    · obtain ⟨metadata, back, hmem, hbatch⟩ := ih.callback hbefore
      refine ⟨metadata, back ++ [tr], ?_, ?_⟩
      · rw [HandleKind.events_append]
        exact List.mem_append_left _ hmem
      · refine hbatch.joins hrun hfew hjoins fun pc hpc => (hrun.readOnly ?_ hpc).calm
        rw [hbefore, Option.isSome_some]
    · obtain ⟨back, hbatch⟩ := hcarried hpc rfl
      refine ⟨metadata, back ++ [tr], ?_, hbatch⟩
      rw [HandleKind.events_append]
      exact List.mem_append_right _ hcreate

/-! ## reads -/

/-- In the callback for a diff, reads see what the batch that it is of has made
of its core; `back` is the run since that batch. -/
structure SeesBatch (p : Process) (thread : ThreadId) (diff : UInt64) (submit : Transition)
    (back : List Transition) (entry : Nat) (metadata : StitchDiffMetadata)
    (core' : CoreState) : Prop where
  /-- The diff is that of the batch. -/
  created : .create diff metadata ∈ diffKind.events back
  /-- The batch is the last one of the thread. -/
  last : ∀ tr ∈ back, ¬ tr.Submits thread
  stands : submit.Stands p thread entry metadata core'
  /-- A snapshot of the core. -/
  snapshot : ∀ ⦃tr p' handle⦄, Transition.Joins p tr p' →
    tr.label = ⟨.advance thread, some (.ok, .handle handle)⟩ →
    (p.threads thread).pc = some (.locked entry .snapshot) →
    p'.snapshots[handle]? = some ⟨core'.snapshotMetadata, 1⟩
  /-- The metadata of the diff. -/
  metadata : ∀ ⦃tr p' value out⦄, Transition.Joins p tr p' →
    tr.label = ⟨.advance thread, some (.ok, .diffMetadata value)⟩ →
    (p.threads thread).pc = some (.diffMetadataGet diff out) → value = metadata

theorem CoreState.snapshotMetadata_congr {core core' : CoreState}
    (hhistory : core.history = core'.history) (hepoch : core.epoch = core'.epoch) :
    core.snapshotMetadata = core'.snapshotMetadata := by
  simp only [snapshotMetadata, revision, hhistory, hepoch]

theorem Recorded.seesBatch (hrun : Recorded trs p) (hfew : allocations trs < 2 ^ 64 - 1)
    {diff : UInt64} (hcallback : (p.threads thread).callback = some diff) :
    ∃ front submit back entry metadata core', trs = front ++ submit :: back ∧
      SeesBatch p thread diff submit back entry metadata core' := by
  obtain ⟨metadata, back, hcreate, front, submit, rfl, hlast, entry, core', hstands⟩ :=
    (hrun.batched hfew).callback hcallback
  refine ⟨front, submit, back, entry, metadata, core', rfl, hcreate, hlast, hstands, ?_, ?_⟩
  · intro tr p' handle hjoins hlabel hpc
    obtain ⟨now, hnow, -, hhistory, hepoch⟩ := hstands.core
    have hstep := hjoins.step
    rw [hlabel] at hstep
    obtain ⟨error, hexec, -⟩ | ⟨q, progress, hexec, hreturned, rfl⟩ := hstep.exec hpc
    · simp [Process.exec, hnow, Process.access, pure, Except.pure] at hexec
    · simp only [Process.exec, hnow, Process.access, pure_eq_ok_iff, Prod.mk.injEq] at hexec
      obtain ⟨rfl, rfl⟩ := hexec
      cases hreturned
      rw [← CoreState.snapshotMetadata_congr hhistory hepoch]
      exact Std.ExtTreeMap.getElem?_insert_self
  · intro tr p' value out hjoins hlabel hpc
    have hcreated := (hrun.diffs_created hfew).1
    have hcounts := counts_of_runs (diffKind_sound.runs hrun hcreated) hcreated
    have hstep := hjoins.step
    rw [hlabel] at hstep
    obtain ⟨error, -, hreturned, -⟩ | ⟨q, progress, hexec, hreturned, -⟩ := hstep.exec hpc
    · cases hreturned
    · simp only [Process.exec, bind_eq_ok_iff, pure_eq_ok_iff, Prod.mk.injEq] at hexec
      obtain ⟨found, hget, -, rfl⟩ := hexec
      cases hreturned
      unfold metadataGet at hget
      split at hget
      · cases hget
      · next stored hstored =>
        simp only [bind_eq_ok_iff, pure_eq_ok_iff] at hget
        obtain ⟨_, -, rfl⟩ := hget
        refine value_unique hcreated (hcounts.count hstored).1 ?_
        rw [List.append_cons, HandleKind.events_append]
        exact List.mem_append_right _ hcreate

/-! ## callbacks are read-only -/

/-- A call is refused so only inside a callback. -/
theorem Transition.Joins.callback_of_reentrant (hjoins : Transition.Joins p tr p')
    {output : Output} (hreturned : tr.label.returned = some (.reentrantMutation, output)) :
    (p.threads tr.label.action.thread).callback.isSome := by
  obtain ⟨before, ⟨action, returned⟩, after⟩ := tr
  obtain ⟨rfl, rfl, hstep⟩ := hjoins
  obtain rfl : returned = some (.reentrantMutation, output) := hreturned
  cases action with
  | begin thread call =>
      have htakes : before.Takes ⟨.begin thread call, some (.reentrantMutation, output)⟩ after :=
        hstep.takes
      cases htakes with
      | reject _ hstart => exact (Call.mutates_of_start hstart).1
  | endCallback thread =>
      have htakes : before.Takes ⟨.endCallback thread, some (.reentrantMutation, output)⟩ after :=
        hstep.takes
      cases htakes
  | advance thread =>
      have hstep : before.Step ⟨.advance thread, some (.reentrantMutation, output)⟩ after := hstep
      obtain ⟨pc, hpc⟩ := hstep.pc
      obtain ⟨error, hexec, herror, -⟩ | ⟨q, progress, hexec, hreturned, -⟩ := hstep.exec hpc
      · cases herror
        exact absurd rfl (before.raises_exec _ _ _ hexec).2
      · have hsucceeds := Process.succeeds_of_exec hexec (.advance thread)
        rw [← hreturned] at hsucceeds
        cases hsucceeds

/-- **Callbacks are read-only.** -/
theorem callbacks_read_only (hrun : Recorded trs p) :
    (∀ tr ∈ trs, (tr.before.threads tr.label.action.thread).callback.isSome →
      tr.KeepsCores ∧ (allocations trs < 2 ^ 64 - 1 → tr.KeepsRegistry)) ∧
    (∀ tr ∈ trs, ∀ thread call, tr.label.action = .begin thread call →
      (tr.before.threads thread).callback.isSome → call.Mutates → call.Writable →
        tr.label.returned = some (.reentrantMutation, .none) ∧ tr.after = tr.before) ∧
    (allocations trs < 2 ^ 64 - 1 → ∀ thread diff, (p.threads thread).callback = some diff →
      ∃ front submit back entry metadata core', trs = front ++ submit :: back ∧
        SeesBatch p thread diff submit back entry metadata core') ∧
    ∀ tr ∈ trs,
      (∀ thread, tr.label.action = .endCallback thread →
        (tr.after.threads thread).callback = none) ∧
      ∀ output, tr.label.returned = some (.reentrantMutation, output) →
        (tr.before.threads tr.label.action.thread).callback.isSome := by
  refine ⟨fun tr htr hcallback => ?_,
    fun tr htr thread call haction hcallback hmutates hwritable => ?_,
    fun hfew thread diff hcallback => hrun.seesBatch hfew hcallback, fun tr htr => ⟨?_, ?_⟩⟩
  · obtain ⟨front, back, rfl⟩ := List.append_of_mem htr
    obtain ⟨hfront, hjoins, -⟩ := hrun.split
    exact ⟨hfront.keepsCores hjoins hcallback,
      fun hfew => hfront.keepsRegistry (few_of_append hfew) hjoins hcallback⟩
  · obtain ⟨before, ⟨action, returned⟩, after⟩ := tr
    obtain rfl : action = .begin thread call := haction
    have htakes : before.Takes ⟨.begin thread call, returned⟩ after := (hrun.joins htr).step.takes
    have hstart := Call.start_mutates hmutates hwritable
    rw [← show (before.threads thread).callback.isSome = true from hcallback] at hstart
    cases htakes with
    | reject _ herror =>
        cases hstart.symm.trans herror
        exact ⟨rfl, rfl⟩
    | start _ hok => cases hstart.symm.trans hok
  · intro thread haction
    obtain ⟨before, ⟨action, returned⟩, after⟩ := tr
    obtain rfl : action = .endCallback thread := haction
    have htakes : before.Takes ⟨.endCallback thread, returned⟩ after := (hrun.joins htr).step.takes
    cases htakes
    simp [Process.setThread]
  · exact fun output hreturned => (hrun.joins htr).callback_of_reentrant hreturned

end Reentrancy

section Schedule

/-- In the callback of its submit a thread may not raise the epoch, but takes a
snapshot. -/
def reentrantLabels : List Label :=
  [.pending (.begin 0 (.coreCreate (some ⟨header coreConfigSize, 0⟩) true)),
    .pending (.advance 0),
    ⟨.advance 0, some (.ok, .handle 1)⟩,
    .pending (.begin 0 (.coreSubmit 1 (some (addTrackBatch 0x2a none)) true true)),
    .pending (.advance 0),
    .pending (.advance 0),
    .pending (.advance 0),
    .pending (.advance 0),
    ⟨.begin 0 (.coreSetEpoch 1 1), some (.reentrantMutation, .none)⟩,
    .pending (.begin 0 (.coreSnapshot 1 true)),
    .pending (.advance 0),
    ⟨.advance 0, some (.ok, .handle 3)⟩]

theorem any_reentrantLabels :
    letI := firstTrackSha256
    (Process.initial.recorded reentrantLabels).any fun recorded =>
      allocations recorded.1 = 3 ∧ (recorded.2.threads 0).callback = some 2 := by
  decide +kernel

theorem callbacks_read_only_reentrantLabels :
    letI := firstTrackSha256
    ∃ trs p, Recorded trs p ∧ (p.threads 0).callback = some 2 ∧
      (∃ front submit back entry metadata core', trs = front ++ submit :: back ∧
        SeesBatch p 0 2 submit back entry metadata core') ∧
      ∀ tr ∈ trs, (tr.before.threads tr.label.action.thread).callback.isSome →
        tr.KeepsCores ∧ tr.KeepsRegistry := by
  let _ := firstTrackSha256
  obtain ⟨⟨trs, p⟩, hrecorded, hfacts⟩ := (Option.any_eq_true _ _).mp any_reentrantLabels
  obtain ⟨hallocations, hcallback⟩ := of_decide_eq_true hfacts
  have hrun : Recorded trs p := Process.runs_of_recorded hrecorded
  have hfew : allocations trs < 2 ^ 64 - 1 := by
    rw [show allocations trs = 3 from hallocations]
    decide
  obtain ⟨hkeeps, -, hsees, -⟩ := callbacks_read_only hrun
  exact ⟨trs, p, hrun, hcallback, hsees hfew 0 2 hcallback,
    fun tr htr hinside => ⟨(hkeeps tr htr hinside).1, (hkeeps tr htr hinside).2 hfew⟩⟩

end Schedule

/-! ## the counter wraps around -/

section Wrapping

variable [Sha256]

variable {p q : Process} {thread : ThreadId} {pc : Pc} {progress : Progress}

/-- A state from which another can be reached. -/
def Process.Leads (p q : Process) : Prop := ∃ labels, Runs Process.Step p labels q

omit [Sha256] in
theorem Process.setThread_self (p : Process) (thread : ThreadId) (state : Thread) :
    (p.setThread thread state).threads thread = state :=
  Function.update_self ..

namespace Process.Leads

variable {r : Process} {callback : Option UInt64}

theorem refl : p.Leads p := ⟨[], .nil⟩

theorem trans (h : p.Leads q) (h' : q.Leads r) : p.Leads r := by
  obtain ⟨labels, hrun⟩ := h
  obtain ⟨more, hmore⟩ := h'
  exact ⟨labels ++ more, hrun.append hmore⟩

theorem start {call : Call} (h : p.Leads q) (hthread : q.threads thread = ⟨callback, none⟩)
    (hstart : call.start callback.isSome = .ok pc) :
    p.Leads (q.setThread thread ⟨callback, some pc⟩) := by
  refine h.trans ⟨[⟨.begin thread call, none⟩], Runs.singleton_iff.mpr ?_⟩
  simp only [Process.Step, Process.step, hthread, hstart]

theorem run (h : p.Leads q) (hthread : q.threads thread = ⟨callback, some pc⟩)
    (hexec : q.exec thread pc = .ok (r, progress)) :
    p.Leads (r.setThread thread (progress.leaves ⟨callback, some pc⟩)) := by
  have hstep := Process.Step.of_exec (congrArg Thread.pc hthread) hexec
  rw [hthread] at hstep
  exact h.trans ⟨_, Runs.singleton_iff.mpr hstep⟩

end Process.Leads

/-- Thread 0 is idle and owns the core 1, which is empty. -/
structure Process.Ready (p : Process) (next : UInt64) : Prop where
  idle : p.threads 0 = ⟨none, none⟩
  bound : p.cores[(1 : UInt64)]? = some 0
  core : p.heap[0]? = some ⟨.default, 0, ∅, 0⟩
  next : p.nextHandle = next

theorem Process.exists_ready : ∃ p, Process.initial.Leads p ∧ p.Ready 2 := by
  have hstart : (Call.coreCreate (some ⟨header coreConfigSize, 0⟩) true).start false =
      .ok (.allocateCore 0) := rfl
  have hstarted := (Process.Leads.refl : Process.initial.Leads _).start
    (show Process.initial.threads 0 = ⟨none, none⟩ from rfl) hstart
  have hallocated := hstarted.run (Process.setThread_self ..) rfl
  have hinserted := hallocated.run (Process.setThread_self ..) rfl
  refine ⟨_, hinserted, Process.setThread_self .., ?_, rfl, rfl⟩
  exact Std.ExtTreeMap.getElem?_insert_self

/-- To take a snapshot and release it costs one handle. -/
theorem Process.Ready.snapshot {next : UInt64} (h : p.Ready next) :
    ∃ q, p.Leads q ∧ q.Ready (next + 1) := by
  have hstart : (Call.coreSnapshot 1 true).start false = .ok (.lookup 1 .snapshot) := rfl
  have hbegin : ∀ handle, (Call.snapshotRelease handle).start false =
      .ok (.snapshotRelease handle) := fun _ => rfl
  have hlookup : ∀ q : Process, q.cores = p.cores →
      q.exec 0 (.lookup 1 .snapshot) = .ok (q, .continues (.locked 0 .snapshot)) := by
    intro q hcores
    simp only [Process.exec, hcores, h.bound]
    rfl
  have hlocked : ∀ q : Process, q.heap = p.heap → q.exec 0 (.locked 0 .snapshot) =
      .ok ({ q.bump with
        snapshots := q.snapshots.insert q.freshHandle
          ⟨CoreState.snapshotMetadata ⟨.default, 0, ∅, 0⟩, 1⟩ },
        .finished .ok (.handle q.freshHandle)) := by
    intro q hheap
    simp only [Process.exec, hheap, h.core, Process.access]
    rfl
  have hrelease : ∀ (q : Process) (handle : UInt64) (metadata : StitchSnapshotMetadata)
      (snapshots : OrdMap UInt64 (RefHandle StitchSnapshotMetadata)),
      q.snapshots = snapshots.insert handle ⟨metadata, 1⟩ →
      q.exec 0 (.snapshotRelease handle) =
        .ok ({ q with snapshots := q.snapshots.erase handle }, .finished .ok .none) := by
    intro q handle metadata snapshots hsnapshots
    simp [Process.exec, release, hsnapshots]
  have hstarted := Process.Leads.refl.start h.idle hstart
  have hfound := hstarted.run (Process.setThread_self ..) (hlookup _ rfl)
  have htaken := hfound.run (Process.setThread_self ..) (hlocked _ rfl)
  have hagain := htaken.start (Process.setThread_self ..) (hbegin p.freshHandle)
  have hreleased := hagain.run (Process.setThread_self ..) (hrelease _ _ _ _ rfl)
  exact ⟨_, hreleased, Process.setThread_self .., h.bound, h.core, congrArg (· + 1) h.next⟩

theorem Process.Ready.snapshots {next : UInt64} (h : p.Ready next) (count : Nat) :
    ∃ q, p.Leads q ∧ q.Ready (next + UInt64.ofNat count) := by
  induction count with
  | zero => exact ⟨p, .refl, by simpa using h⟩
  | succ count ih =>
      obtain ⟨q, hleads, hready⟩ := ih
      obtain ⟨r, hleads', hready'⟩ := hready.snapshot
      refine ⟨r, hleads.trans hleads', ?_⟩
      rwa [UInt64.ofNat_add, ← add_assoc]

/-- In the callback for the last handle, `stitch_core_create` gets the handle 1. -/
theorem Process.Ready.insertCore {batch : StitchCommandBatch} {core : CoreState}
    {metadata : StitchDiffMetadata} (h : p.Ready 0xffffffffffffffff)
    (hcheck : checkBatch batch = .ok ())
    (hsubmit : CoreState.submit ⟨.default, 0, ∅, 0⟩ 0 batch = .ok (core, metadata)) :
    ∃ q, p.Leads q ∧ q.threads 0 = ⟨some 0xffffffffffffffff, some (.insertCore 1 0)⟩ ∧
      q.cores[(1 : UInt64)]? = some 0 ∧ 0 < q.heap.length := by
  have hstart : (Call.coreSubmit 1 (some batch) true true).start false =
      .ok (.lookup 1 (.submit batch true)) := by
    change (do
      checkBatch batch
      pure (Pc.lookup 1 (.submit batch true))) = _
    rw [hcheck]
    rfl
  have hlookup : ∀ q : Process, q.cores = p.cores →
      q.exec 0 (.lookup 1 (.submit batch true)) =
        .ok (q, .continues (.locked 0 (.submit batch true))) := by
    intro q hcores
    simp only [Process.exec, hcores, h.bound]
    rfl
  have hlocked : ∀ q : Process, q.heap = p.heap → q.exec 0 (.locked 0 (.submit batch true)) =
      .ok (q.setCore 0 core, .continues (.allocateDiff metadata true)) := by
    intro q hheap
    simp only [Process.exec, hheap, h.core, Process.access, hsubmit]
    rfl
  have hallocate : ∀ q : Process, q.nextHandle = p.nextHandle →
      q.exec 0 (.allocateDiff metadata true) =
        .ok (q.bump, .continues (.insertDiff 0xffffffffffffffff metadata true)) := by
    intro q hnext
    simp only [Process.exec, Process.freshHandle, hnext, h.next]
    rfl
  have hcreate : ∀ q : Process, q.nextHandle = p.nextHandle + 1 →
      q.exec 0 (.allocateCore 0) = .ok (q.bump, .continues (.insertCore 1 0)) := by
    intro q hnext
    simp only [Process.exec, Process.freshHandle, hnext, h.next]
    rfl
  have hstarted := Process.Leads.refl.start h.idle hstart
  have hfound := hstarted.run (Process.setThread_self ..) (hlookup _ rfl)
  have hsubmitted := hfound.run (Process.setThread_self ..) (hlocked _ rfl)
  have hallocated := hsubmitted.run (Process.setThread_self ..) (hallocate _ rfl)
  have hcalled := hallocated.run (Process.setThread_self ..) rfl
  have hagain := hcalled.start (Process.setThread_self ..)
    (show (Call.coreCreate (some ⟨header coreConfigSize, 0⟩) true).start true =
      .ok (.allocateCore 0) from rfl)
  have hcreated := hagain.run (Process.setThread_self ..) (hcreate _ rfl)
  refine ⟨_, hcreated, Process.setThread_self .., h.bound, ?_⟩
  simpa [Process.setThread, Process.bump, Process.setCore] using
    (List.getElem?_eq_some_iff.mp h.core).1

end Wrapping

section Schedule

theorem exists_submit :
    letI := firstTrackSha256
    ∃ core metadata, CoreState.submit ⟨.default, 0, ∅, 0⟩ 0 (addTrackBatch 0x2a none) =
      .ok (core, metadata) := by
  let _ := firstTrackSha256
  have hok : (CoreState.submit ⟨.default, 0, ∅, 0⟩ 0 (addTrackBatch 0x2a none)).isOk := by
    decide +kernel
  cases hsubmit : CoreState.submit ⟨.default, 0, ∅, 0⟩ 0 (addTrackBatch 0x2a none) with
  | error => simp [hsubmit, Except.isOk, Except.toBool] at hok
  | ok => exact ⟨_, _, rfl⟩

/-- After 2 ^ 64 - 2 handles, a core created in a callback takes the place of
the core 1. -/
theorem callbacks_overwrite_core :
    letI := firstTrackSha256
    ∃ trs p, Recorded trs p ∧ ∃ tr ∈ trs,
      (tr.before.threads tr.label.action.thread).callback.isSome ∧ ¬ tr.KeepsRegistry := by
  let _ := firstTrackSha256
  have hlast : (2 + UInt64.ofNat (2 ^ 64 - 3) : UInt64) = 0xffffffffffffffff := by decide
  have hcheck : checkBatch (addTrackBatch 0x2a none) = .ok () := by decide +kernel
  obtain ⟨core, metadata, hsubmit⟩ := exists_submit
  obtain ⟨p, hleads, hready⟩ := Process.exists_ready
  obtain ⟨q, hleads', hready'⟩ := hready.snapshots (2 ^ 64 - 3)
  rw [hlast] at hready'
  obtain ⟨r, hleads'', hthread, hbound, hlength⟩ := hready'.insertCore hcheck hsubmit
  obtain ⟨labels, hruns⟩ := (hleads.trans hleads').trans hleads''
  obtain ⟨trs, hrun, -⟩ := exists_recorded hruns
  have hstep := Process.Step.of_exec (congrArg Thread.pc hthread) rfl
  refine ⟨trs ++ [⟨r, _, _⟩], _, .snoc hrun ⟨rfl, rfl, hstep⟩, _, List.mem_concat_self, ?_,
    fun hkeeps => ?_⟩
  · simp [Action.thread, hthread]
  · have hafter : (r.cores.insert 1 r.heap.length)[(1 : UInt64)]? = some 0 := hkeeps 1 0 hbound
    rw [Std.ExtTreeMap.getElem?_insert_self, Option.some.injEq] at hafter
    omega

end Schedule

end StitchEditor.Abi
