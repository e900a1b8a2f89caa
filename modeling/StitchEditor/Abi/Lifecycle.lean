import Mathlib
import StitchEditor.Abi.Callers
import StitchEditor.Abi.Handles
import StitchEditor.Abi.Leases
import StitchEditor.Abi.Staleness

/-!
# StitchEditor.Abi.Lifecycle

The life cycle of a frame lease.

An id is unused until a registration returns it, then stands for a lease that
moves from `Registered` on towards `Retired`, and is gone once the lease is
removed or discarded (`LeaseStatus.Moves`).  Every transition of every run
leaves an id where it is in this cycle or moves it one step, in a call of
the thread that registered the lease which names the id and the device
generation (`Recorded.status_moves`).

Retiring a lease takes two sections; what is known of the thread between them
is `Process.Removing`.
-/

namespace StitchEditor.Abi

open StitchEditor Fallible Run

/-! ## the life cycle -/

/-- Where an id is in its life. -/
inductive LeaseStatus where
  | unused
  | live (lease : Lease)
  | gone
  deriving DecidableEq

/-- One step of the life of the id, in a call of the thread. -/
inductive LeaseStatus.Moves (id : UInt64) : LeaseStatus → ThreadId → Call → LeaseStatus → Prop where
  | register {thread : ThreadId} {core : UInt64} {metadata : StitchFrameMetadata}
      {outLease : Bool} :
      Moves id .unused thread (.frameLeaseRegister core (some metadata) outLease)
        (.live (metadata.lease thread id))
  | acquire {lease : Lease} {core epoch : UInt64} {revision : Option StitchDigest}
      (hstate : lease.state = .registered) :
      Moves id (.live lease) lease.owner
        (.frameLeaseAcquire core id lease.metadata.deviceGeneration epoch revision)
        (.live (lease.inState .acquired))
  | submit {lease : Lease} {core : UInt64} (hstate : lease.state = .acquired) :
      Moves id (.live lease) lease.owner
        (.frameLeaseSubmit core id lease.metadata.deviceGeneration)
        (.live (lease.inState .submitted))
  | complete {lease : Lease} {core : UInt64} (hstate : lease.state = .submitted) :
      Moves id (.live lease) lease.owner
        (.frameLeaseComplete core id lease.metadata.deviceGeneration)
        (.live (lease.inState .completed))
  | retire {lease : Lease} {core : UInt64} (hstate : lease.state = .completed) :
      Moves id (.live lease) lease.owner
        (.frameLeaseRetire core id lease.metadata.deviceGeneration)
        (.live (lease.inState .retired))
  | remove {lease : Lease} {core : UInt64} (hstate : lease.state = .retired) :
      Moves id (.live lease) lease.owner
        (.frameLeaseRetire core id lease.metadata.deviceGeneration) .gone
  | discard {lease : Lease} {core : UInt64}
      (hstate : lease.state = .registered ∨ lease.state = .acquired) :
      Moves id (.live lease) lease.owner
        (.frameLeaseDiscard core id lease.metadata.deviceGeneration) .gone

section Lifecycle

variable [Sha256]

variable {p p' : Process} {tr : Transition} {trs : List Transition} {entry entry' : Nat}
  {id : UInt64} {thread : ThreadId}

/-! ## registrations -/

/-- The id that the transition registers. -/
def Transition.registration? (tr : Transition) : Option UInt64 :=
  match tr.label with
  | ⟨.advance thread, some (.ok, .handle id)⟩ =>
      match (tr.before.threads thread).pc with
      | some (.locked _ (.register _)) => some id
      | _ => none
  | _ => none

/-- The ids that were ever registered. -/
def registrations (trs : List Transition) : List UInt64 := trs.filterMap Transition.registration?

omit [Sha256] in
theorem Transition.registration?_eq_some_iff :
    tr.registration? = some id ↔ ∃ entry, tr.Registers entry id := by
  unfold Transition.registration? Transition.Registers
  constructor
  · intro h
    split at h
    · next thread id' hlabel =>
      split at h
      · next entry metadata hpc =>
        cases h
        exact ⟨entry, thread, metadata, hlabel, hpc⟩
      · cases h
    · cases h
  · rintro ⟨entry, thread, metadata, hlabel, hpc⟩
    simp [hlabel, hpc]

omit [Sha256] in
theorem registrations_concat (trs : List Transition) (tr : Transition) :
    registrations (trs ++ [tr]) = registrations trs ++ tr.registration?.toList := by
  unfold registrations
  rw [List.filterMap_append]
  cases h : tr.registration? <;> simp [h]

omit [Sha256] in
theorem mem_registrations_concat (h : id ∈ registrations trs) (tr : Transition) :
    id ∈ registrations (trs ++ [tr]) := by
  rw [registrations_concat]
  exact List.mem_append_left _ h

/-- A frame on its way to be registered says so. -/
def Pc.Announced : Pc → Prop
  | .lookup _ (.register metadata) => metadata.state = LeaseState.registered.toUInt32
  | .locked _ (.register metadata) => metadata.state = LeaseState.registered.toUInt32
  | _ => True

omit [Sha256] in
theorem Pc.announced_of_start {call : Call} {inCallback : Bool} {pc : Pc}
    (h : call.start inCallback = .ok pc) : pc.Announced := by
  cases call with
  | frameLeaseRegister core metadata outLease =>
      simp only [Call.start, checkMetadata, bind_eq_ok_iff, pure_eq_ok_iff, refuse_eq_ok_iff,
        exists_const] at h
      obtain ⟨-, _, -, metadata, -, ⟨_, -, _, -, hcheck⟩, rfl⟩ := h
      push Not at hcheck
      exact hcheck.2.1
  | _ =>
      simp only [Call.start, bind_eq_ok_iff, pure_eq_ok_iff] at h
      grind [Pc.Announced]

theorem Recorded.announced (hrun : Recorded trs p) {metadata : StitchFrameMetadata}
    (hpc : (p.threads thread).pc = some (.locked entry (.register metadata))) :
    metadata.state = LeaseState.registered.toUInt32 := by
  refine hrun.pc_invariant (P := Pc.Announced) ?_ ?_ hpc
  · intro tr _ thread call inCallback pc _ hstart
    exact Pc.announced_of_start hstart
  · intro q q' thread pc pc' hexecutes hannounced
    cases hexecutes with
    | @lookup handle access =>
        cases access with
        | register metadata => exact hannounced
        | _ => trivial
    | locked hcore haccess =>
        cases haccess.serves <;> trivial
    | insertDiff h => split at h <;> cases h
    | allocateCore | allocateDiff => trivial

/-- A lease as its registration left it, but for its state. -/
def Lease.RegisteredBy (lease : Lease) (tr : Transition) (entry : Nat) (id : UInt64) : Prop :=
  ∃ metadata, tr.label = ⟨.advance lease.owner, some (.ok, .handle id)⟩ ∧
    (tr.before.threads lease.owner).pc = some (.locked entry (.register metadata)) ∧
    lease = (metadata.lease lease.owner id).inState lease.state

/-- What is known of ids and leases along a run. -/
structure Tracked (trs : List Transition) (p : Process) : Prop where
  registered : ∀ ⦃entry id lease⦄, p.leaseAt entry id = some lease →
    ∃ tr ∈ trs, lease.RegisteredBy tr entry id
  below : ∀ ⦃id⦄, id ∈ registrations trs → id.toNat ≤ allocations trs
  unique : ∀ ⦃entry entry' id lease lease'⦄, p.leaseAt entry id = some lease →
    p.leaseAt entry' id = some lease' → entry = entry'

omit [Sha256] in
theorem Lease.RegisteredBy.mem {lease : Lease} (h : lease.RegisteredBy tr entry id)
    (htr : tr ∈ trs) : id ∈ registrations trs := by
  obtain ⟨metadata, hlabel, hpc, -⟩ := h
  refine List.mem_filterMap.mpr ⟨tr, htr, Transition.registration?_eq_some_iff.mpr ?_⟩
  exact ⟨entry, _, metadata, hlabel, hpc⟩

omit [Sha256] in
theorem Tracked.mem (h : Tracked trs p) {lease : Lease} (hlease : p.leaseAt entry id = some lease) :
    id ∈ registrations trs := by
  obtain ⟨tr, htr, hregistered⟩ := h.registered hlease
  exact hregistered.mem htr

/-- The next handle was never registered. -/
theorem Tracked.fresh (h : Tracked trs p) (hrun : Recorded trs p)
    (hfew : allocations trs < 2 ^ 64 - 1) : p.freshHandle ∉ registrations trs := by
  intro hmem
  have hle := h.below hmem
  rw [hrun.toNat_freshHandle hfew] at hle
  omega

theorem Tracked.absent (h : Tracked trs p) (hrun : Recorded trs p)
    (hfew : allocations trs < 2 ^ 64 - 1) (entry : Nat) : p.leaseAt entry p.freshHandle = none := by
  cases hlease : p.leaseAt entry p.freshHandle with
  | none => rfl
  | some lease => exact absurd (h.mem hlease) (h.fresh hrun hfew)

/-- **Ids and leases stay tracked** while handles are new. -/
theorem Recorded.tracked (hrun : Recorded trs p) (hfew : allocations trs < 2 ^ 64 - 1) :
    Tracked trs p := by
  refine hrun.invariant_of_few hfew ⟨nofun, nofun, nofun⟩ ?_
  intro trs p tr p' hrun hfew _ ih hjoins
  have hat := hjoins.atLease
  have hregisters : ∀ entry id, tr.Registers entry id →
      id = tr.before.freshHandle ∧ tr.allocates := by
    intro entry id hregisters
    obtain ⟨heq, hallocates, -⟩ := hregisters.eq_freshHandle hjoins
    exact ⟨heq, hallocates⟩
  obtain ⟨rfl, rfl, -⟩ := hjoins
  have hfresh : ∀ entry, tr.before.leaseAt entry tr.before.freshHandle = none :=
    ih.absent hrun hfew
  refine ⟨?_, ?_, ?_⟩
  · intro entry id lease' hlease'
    obtain ⟨lease, hlease, heq⟩ | ⟨thread, metadata, hlabel, hpc, rfl, -, -⟩ :=
      (hat entry id).origin hlease'
    · obtain ⟨tr', htr', metadata, hlabel, hpc, hregistered⟩ := ih.registered hlease
      refine ⟨tr', List.mem_append_left _ htr', metadata, ?_⟩
      obtain rfl | ⟨state, rfl⟩ := heq
      · exact ⟨hlabel, hpc, hregistered⟩
      · refine ⟨hlabel, hpc, ?_⟩
        rw [hregistered]
        rfl
    · refine ⟨tr, by simp, metadata, hlabel, hpc, ?_⟩
      simp [StitchFrameMetadata.lease, Lease.inState, ← hrun.announced hpc]
  · intro id hmem
    rw [registrations_concat, List.mem_append, Option.mem_toList] at hmem
    rw [allocations_append]
    rcases hmem with hmem | hmem
    · exact (ih.below hmem).trans (Nat.le_add_right _ _)
    · obtain ⟨entry, hregisters'⟩ := Transition.registration?_eq_some_iff.mp hmem
      obtain ⟨rfl, hallocates⟩ := hregisters entry id hregisters'
      rw [hrun.toNat_freshHandle hfew]
      simp [allocations, hallocates]
  · intro entry entry' id lease lease' hlease hlease'
    obtain ⟨old, hold, -⟩ | ⟨thread, metadata, hlabel, hpc, -, rfl, -⟩ :=
      (hat entry id).origin hlease
    · obtain ⟨old', hold', -⟩ | ⟨_, _, -, -, -, rfl, -⟩ := (hat entry' id).origin hlease'
      · exact ih.unique hold hold'
      · rw [hfresh entry] at hold
        cases hold
    · obtain ⟨old', hold', -⟩ | ⟨thread', metadata', hlabel', hpc', -, -, -⟩ :=
        (hat entry' _).origin hlease'
      · rw [hfresh entry'] at hold'
        cases hold'
      · obtain rfl : thread = thread' :=
          Action.advance.inj (Label.mk.inj (hlabel.symm.trans hlabel')).1
        rw [hpc] at hpc'
        cases hpc'
        rfl

/-! ## between the sections of a retirement -/

/-- The id that a section is about to remove. -/
def Pc.removes? : Pc → Option UInt64
  | .lookup _ (.remove id) => some id
  | .locked _ (.remove id) => some id
  | _ => none

/-- What the thread is about to remove is a lease that it has retired. -/
structure Process.Removing (p : Process) (trs : List Transition) (thread : ThreadId) (id : UInt64) :
    Prop where
  mem : id ∈ registrations trs
  retired : ∀ ⦃entry lease⦄, p.leaseAt entry id = some lease →
    lease.state = .retired ∧ lease.owner = thread ∧
      ∃ core, callOf trs thread = some (.frameLeaseRetire core id lease.metadata.deviceGeneration)

omit [Sha256] in
theorem Pc.removes?_of_start {call : Call} {inCallback : Bool} {pc : Pc}
    (h : call.start inCallback = .ok pc) : pc.removes? = none := by
  cases call <;> simp only [Call.start, bind_eq_ok_iff, pure_eq_ok_iff] at h <;> grind [Pc.removes?]

section Moves

variable {fresh : UInt64} {access : Access} {old new : Option Lease} {lease : Lease} {call : Call}

omit [Sha256] in
/-- A retired lease can only be removed. -/
theorem Lease.Moves.of_retired (h : Lease.Moves thread fresh id access old new)
    (hold : old = some lease) (hstate : lease.state = .retired) (hwithin : access.Within call)
    (hne : id ≠ fresh) : new = some lease ∨ new = none := by
  cases h with
  | keeps => exact .inl hold
  | registers hfresh => exact absurd hfresh hne
  | transitions _ _ hexpected =>
      obtain rfl := Option.some.inj hold
      rw [hstate] at hexpected
      subst hexpected
      cases hwithin with
      | still h => exact h.elim
  | discards _ _ _ | removes => exact .inr rfl

omit [Sha256] in
theorem Lease.Moves.of_none (h : Lease.Moves thread fresh id access old new) (hold : old = none)
    (hne : id ≠ fresh) : new = none := by
  cases h with
  | keeps => exact hold
  | registers hfresh => exact absurd hfresh hne
  | transitions _ _ _ => cases hold
  | discards _ _ _ | removes => rfl

end Moves

/-- Other threads leave the lease as it is, or remove it. -/
theorem Process.Removing.stays (h : p.Removing trs thread id) (hrun : Recorded trs p)
    (hfew : allocations trs < 2 ^ 64 - 1) (hjoins : Transition.Joins p tr p')
    (hne : thread ≠ tr.label.action.thread) : p'.Removing (trs ++ [tr]) thread id := by
  have hat := hjoins.atLease
  obtain ⟨rfl, rfl, -⟩ := hjoins
  have hnew : id ≠ tr.before.freshHandle := by
    rintro rfl
    exact (hrun.tracked hfew).fresh hrun hfew h.mem
  refine ⟨mem_registrations_concat h.mem tr, fun entry lease' hlease' => ?_⟩
  rw [callOf_concat, Transition.begun?_eq_none hne, Option.none_or]
  cases hat entry id with
  | keeps hkeeps => exact h.retired (hkeeps ▸ hlease')
  | moves _ hother hmoves _ =>
      obtain ⟨call, -, hwithin⟩ := hrun.within hother
      cases hlease : tr.before.leaseAt entry id with
      | none => simp [hmoves.of_none hlease hnew] at hlease'
      | some lease =>
          have hretired := h.retired hlease
          obtain hkeeps | hgone := hmoves.of_retired hlease hretired.1 hwithin hnew
          · obtain rfl := Option.some.inj (hlease'.symm.trans hkeeps)
            exact hretired
          · rw [hgone] at hlease'
            cases hlease'

omit [Sha256] in
/-- A call that retires the lease goes on to remove it. -/
theorem Tracked.removing_of_retires {core : UInt64} {lease : Lease} (h : Tracked trs p)
    (h' : Tracked (trs ++ [tr]) p') (hlease : p.leaseAt entry id = some lease)
    (hlease' : p'.leaseAt entry id = some (lease.inState .retired))
    (hcall : callOf (trs ++ [tr]) lease.owner =
      some (.frameLeaseRetire core id lease.metadata.deviceGeneration)) :
    p'.Removing (trs ++ [tr]) lease.owner id where
  mem := mem_registrations_concat (h.mem hlease) tr
  retired entry' found hfound := by
    obtain rfl := h'.unique hlease' hfound
    obtain rfl := Option.some.inj (hlease'.symm.trans hfound)
    exact ⟨rfl, rfl, core, hcall⟩

theorem Recorded.removing (hrun : Recorded trs p) (hfew : allocations trs < 2 ^ 64 - 1) {pc : Pc}
    (hpc : (p.threads thread).pc = some pc) (hremoves : pc.removes? = some id) :
    p.Removing trs thread id := by
  refine hrun.invariant_of_few (I := fun trs p =>
    ∀ thread pc id, (p.threads thread).pc = some pc → pc.removes? = some id →
      p.Removing trs thread id) hfew (fun _ _ _ hpc => by cases hpc) ?_ thread pc id hpc hremoves
  intro trs p tr p' hrun hfew hfew' ih hjoins thread pc id hpc hremoves
  have htracked := hrun.tracked hfew
  have htracked' : Tracked (trs ++ [tr]) p' := Recorded.tracked (.snoc hrun hjoins) hfew'
  have hreaches := hjoins.reaches hpc
  have hjoined := hjoins
  obtain ⟨rfl, rfl, -⟩ := hjoined
  cases hreaches with
  | stays hne hpc => exact (ih thread pc id hpc hremoves).stays hrun hfew hjoins hne
  | starts _ hstart =>
      rw [Pc.removes?_of_start hstart] at hremoves
      cases hremoves
  | @goes pc₀ q haction hpc₀ hexecutes hafter =>
      have hcall : callOf (trs ++ [tr]) thread = callOf trs thread := by
        simp [callOf_concat, Transition.begun?, haction]
      have hlease : ∀ entry, tr.after.leaseAt entry id = q.leaseAt entry id := by
        rw [hafter]
        exact fun _ => rfl
      cases hexecutes with
      | @lookup handle access _ _ =>
          have hsame : (Pc.lookup handle access).removes? = some id := by
            cases access <;> exact hremoves
          have hremoving := ih thread _ id hpc₀ hsame
          refine ⟨mem_registrations_concat hremoving.mem tr, fun entry lease' hlease' => ?_⟩
          rw [hcall]
          exact hremoving.retired (hlease entry ▸ hlease')
      | allocateCore | allocateDiff => cases hremoves
      | insertDiff hprogress => split at hprogress <;> cases hprogress
      | @locked entry access core core' _ _ hcore haccess =>
          obtain ⟨call, hcalled, hwithin⟩ := hrun.within hpc₀
          cases haccess.serves with
          | submit _ | checkAcquire _ | checkSubmit _ => cases hremoves
          | @retire handle _ device expected next _ htransition =>
              cases hremoves
              obtain ⟨lease, howned, hstate, rfl⟩ :=
                CoreState.leaseTransition_eq_ok_iff.mp htransition
              obtain ⟨hfound, rfl, rfl⟩ := CoreState.ownedLease_eq_ok_iff.mp howned
              cases hwithin with
              | still h => exact h.elim
              | @retire handle _ _ =>
                have hbefore : tr.before.leaseAt entry id = some lease :=
                  Process.leaseAt_eq_some_iff.mpr ⟨core, hcore, hfound⟩
                have hafter' : tr.after.leaseAt entry id = some (lease.inState .retired) := by
                  rw [hlease, Process.leaseAt, haccess.heap,
                    List.getElem?_set_self (List.getElem?_eq_some_iff.mp hcore).1]
                  exact Std.ExtTreeMap.getElem?_insert_self
                exact htracked.removing_of_retires htracked' hbefore hafter' (hcall.trans hcalled)

/-! ## the refinement -/

/-- Where the id is in its life. -/
def Process.status (self : Process) (trs : List Transition) (id : UInt64) : LeaseStatus :=
  match self.heap.findSome? fun core => core.leases[id]? with
  | some lease => .live lease
  | none => if id ∈ registrations trs then .gone else .unused

omit [Sha256] in
theorem Tracked.status_live (h : Tracked trs p) {lease : Lease}
    (hlease : p.leaseAt entry id = some lease) : p.status trs id = .live lease := by
  obtain ⟨core, hcore, hfound⟩ := Process.leaseAt_eq_some_iff.mp hlease
  unfold Process.status
  cases hfirst : p.heap.findSome? fun core => core.leases[id]? with
  | none =>
      have hnone := List.findSome?_eq_none_iff.mp hfirst core (List.mem_of_getElem? hcore)
      rw [hfound] at hnone
      cases hnone
  | some found =>
      obtain ⟨core', hmem, hfound'⟩ := List.exists_of_findSome?_eq_some hfirst
      obtain ⟨entry', hcore'⟩ := List.mem_iff_getElem?.mp hmem
      have hlease' : p.leaseAt entry' id = some found :=
        Process.leaseAt_eq_some_iff.mpr ⟨core', hcore', hfound'⟩
      obtain rfl := h.unique hlease hlease'
      obtain rfl := Option.some.inj (hlease.symm.trans hlease')
      rfl

omit [Sha256] in
theorem Process.status_of_absent (h : ∀ entry, p.leaseAt entry id = none) :
    p.status trs id = if id ∈ registrations trs then .gone else .unused := by
  unfold Process.status
  cases hfirst : p.heap.findSome? fun core => core.leases[id]? with
  | none => rfl
  | some found =>
      obtain ⟨core, hmem, hfound⟩ := List.exists_of_findSome?_eq_some hfirst
      obtain ⟨entry, hcore⟩ := List.mem_iff_getElem?.mp hmem
      have hlease : p.leaseAt entry id = some found :=
        Process.leaseAt_eq_some_iff.mpr ⟨core, hcore, hfound⟩
      rw [h entry] at hlease
      cases hlease

/-- Where no core changes what it has under the id, nor does its status. -/
theorem Tracked.status_keeps (h : Tracked trs p) (h' : Tracked (trs ++ [tr]) p')
    (hjoins : Transition.Joins p tr p')
    (hall : ∀ entry, p'.leaseAt entry id = p.leaseAt entry id) :
    p'.status (trs ++ [tr]) id = p.status trs id := by
  by_cases hpresent : ∃ entry lease, p.leaseAt entry id = some lease
  · obtain ⟨entry, lease, hlease⟩ := hpresent
    rw [h.status_live hlease, h'.status_live ((hall entry).trans hlease)]
  · have habsent : ∀ entry, p.leaseAt entry id = none := by
      simpa [Option.eq_none_iff_forall_ne_some] using hpresent
    have hregistration : tr.registration? ≠ some id := by
      intro hregistration
      obtain ⟨entry, hregisters⟩ := Transition.registration?_eq_some_iff.mp hregistration
      obtain ⟨-, -, lease, hlease⟩ := hregisters.eq_freshHandle hjoins
      rw [hjoins.after, hall, habsent] at hlease
      cases hlease
    rw [Process.status_of_absent habsent,
      Process.status_of_absent fun entry => (hall entry).trans (habsent entry),
      registrations_concat]
    simp [hregistration]

omit [Sha256] in
/-- An id that its only core loses is gone. -/
theorem Tracked.status_gone (h : Tracked trs p) {lease : Lease}
    (hlease : p.leaseAt entry id = some lease) (hnone : p'.leaseAt entry id = none)
    (hothers : ∀ entry' ≠ entry, p'.leaseAt entry' id = p.leaseAt entry' id) (tr : Transition) :
    p'.status (trs ++ [tr]) id = .gone := by
  have habsent : ∀ entry', p'.leaseAt entry' id = none := by
    intro entry'
    by_cases hne : entry' = entry
    · rw [hne, hnone]
    · rw [hothers entry' hne, Option.eq_none_iff_forall_ne_some]
      exact fun lease' hlease' => hne (h.unique hlease' hlease)
  rw [Process.status_of_absent habsent, if_pos (mem_registrations_concat (h.mem hlease) tr)]

/-- A transition under the lock of one core changes the leases of no other. -/
theorem Transition.Joins.leaseAt_ne {access : Access} (h : Transition.Joins p tr p')
    (haction : tr.label.action = .advance thread)
    (hpc : (p.threads thread).pc = some (.locked entry access)) (hne : entry' ≠ entry)
    (id : UInt64) : p'.leaseAt entry' id = p.leaseAt entry' id := by
  have hat := h.atLease entry' id
  obtain ⟨rfl, rfl, -⟩ := h
  cases hat with
  | keeps hkeeps => exact hkeeps
  | moves haction' hpc' _ _ =>
      obtain rfl := Action.advance.inj (haction.symm.trans haction')
      rw [hpc] at hpc'
      cases hpc'
      exact absurd rfl hne

/-- **Every transition respects the life cycle.** -/
theorem Recorded.status_moves (hrun : Recorded trs p) (hjoins : Transition.Joins p tr p')
    (hfew : allocations (trs ++ [tr]) < 2 ^ 64 - 1) (id : UInt64) :
    p'.status (trs ++ [tr]) id = p.status trs id ∨
      ∃ thread call, tr.label.action = .advance thread ∧ callOf trs thread = some call ∧
        LeaseStatus.Moves id (p.status trs id) thread call (p'.status (trs ++ [tr]) id) := by
  have hfew' := few_of_append hfew
  have htracked := hrun.tracked hfew'
  have htracked' : Tracked (trs ++ [tr]) p' := Recorded.tracked (.snoc hrun hjoins) hfew
  have hat := hjoins.atLease
  have hjoined := hjoins
  obtain ⟨rfl, rfl, -⟩ := hjoined
  by_cases hall : ∀ entry, tr.after.leaseAt entry id = tr.before.leaseAt entry id
  · exact .inl (htracked.status_keeps htracked' hjoins hall)
  · right
    push Not at hall
    obtain ⟨entry, hchanged⟩ := hall
    cases hat entry id with
    | keeps h => exact absurd h hchanged
    | @moves thread access haction hpc hmoves _ =>
        obtain ⟨call, hcall, hwithin⟩ := hrun.within hpc
        refine ⟨thread, call, haction, hcall, ?_⟩
        have hothers : ∀ entry' ≠ entry, tr.after.leaseAt entry' id = tr.before.leaseAt entry' id :=
          fun entry' hne => hjoins.leaseAt_ne haction hpc hne id
        have hgone : ∀ {lease}, tr.before.leaseAt entry id = some lease →
            tr.after.leaseAt entry id = none → tr.after.status (trs ++ [tr]) id = .gone :=
          fun hlease hnone => htracked.status_gone hlease hnone hothers tr
        generalize hold : tr.before.leaseAt entry id = old at hmoves hchanged
        generalize hnew : tr.after.leaseAt entry id = new at hmoves hchanged
        cases hmoves with
        | keeps => exact absurd rfl hchanged
        | registers hfresh =>
            subst hfresh
            rw [htracked'.status_live hnew, Process.status_of_absent (htracked.absent hrun hfew'),
              if_neg (htracked.fresh hrun hfew')]
            cases hwithin with
            | still h => exact h.elim
            | register => exact .register
        | transitions howner hdevice hstate =>
            subst howner hdevice
            rw [htracked.status_live hold, htracked'.status_live hnew]
            cases hwithin with
            | still h => exact h.elim
            | acquire => exact .acquire hstate
            | submit => exact .submit hstate
            | complete => exact .complete hstate
            | retire => exact .retire hstate
        | discards howner hdevice hstate =>
            subst howner hdevice
            rw [htracked.status_live hold, hgone hold hnew]
            cases hwithin with
            | still h => exact h.elim
            | discard => exact .discard hstate
        | removes =>
            cases old with
            | none => exact absurd rfl hchanged
            | some lease =>
                obtain ⟨hstate, rfl, core, hretire⟩ :=
                  (hrun.removing hfew' hpc rfl).retired hold
                obtain rfl := Option.some.inj (hcall.symm.trans hretire)
                rw [htracked.status_live hold, hgone hold hnew]
                exact .remove hstate

/-- What is gone stays gone, on every core. -/
theorem Recorded.gone {front back : List Transition} {q : Process} (hfront : Recorded front q)
    (hback : Runs Transition.Joins q back p) (hfew : allocations (front ++ back) < 2 ^ 64 - 1)
    (hgone : q.status front id = .gone) : p.status (front ++ back) id = .gone := by
  induction hback with
  | nil => rwa [List.append_nil]
  | @snoc back q₁ q₂ tr hback hjoins ih =>
      rw [← List.append_assoc] at hfew ⊢
      have hmiddle : Recorded (front ++ back) q₁ := hfront.append hback
      have hgone := ih (few_of_append hfew)
      obtain hsame | ⟨thread, call, -, -, hmoves⟩ := hmiddle.status_moves hjoins hfew id
      · exact hsame.trans hgone
      · rw [hgone] at hmoves
        cases hmoves

omit [Sha256] in
theorem Process.leaseAt_of_gone (hgone : p.status trs id = .gone) (entry : Nat) :
    p.leaseAt entry id = none := by
  unfold Process.status at hgone
  split at hgone
  · cases hgone
  · next hnone =>
    rw [List.findSome?_eq_none_iff] at hnone
    rw [Option.eq_none_iff_forall_ne_some]
    intro lease hlease
    obtain ⟨core, hcore, hfound⟩ := Process.leaseAt_eq_some_iff.mp hlease
    rw [hnone core (List.mem_of_getElem? hcore)] at hfound
    cases hfound

/-- The frame-lease protocol along a run. -/
structure LeaseLifecycle (trs : List Transition) (p : Process) : Prop where
  /-- Every entry is what was registered, but for the state that it tells. -/
  entries : ∀ ⦃entry id lease⦄, p.leaseAt entry id = some lease →
    lease.metadata.state = lease.state.toUInt32 ∧ lease.metadata.leaseId = id ∧
      lease.metadata.ownerThreadToken = id ∧ ∃ tr ∈ trs, lease.RegisteredBy tr entry id
  moves : ∀ ⦃front back tr⦄, trs = front ++ tr :: back → ∀ id,
    tr.after.status (front ++ [tr]) id = tr.before.status front id ∨
      ∃ thread call, tr.label.action = .advance thread ∧ callOf front thread = some call ∧
        LeaseStatus.Moves id (tr.before.status front id) thread call
          (tr.after.status (front ++ [tr]) id)
  removed : ∀ ⦃front back tr id⦄, trs = front ++ tr :: back → tr.before.status front id = .gone →
    ∀ entry, p.leaseAt entry id = none

/-- **Leases keep to their life cycle.** -/
theorem leases_keep_lifecycle (hrun : Recorded trs p) (hfew : allocations trs < 2 ^ 64 - 1) :
    LeaseLifecycle trs p := by
  refine ⟨?_, ?_, ?_⟩
  · intro entry id lease hlease
    obtain ⟨tr, htr, hregistered⟩ := (hrun.tracked hfew).registered hlease
    obtain ⟨metadata, hlabel, hpc, heq⟩ := hregistered
    refine ⟨?_, ?_, ?_, tr, htr, metadata, hlabel, hpc, heq⟩ <;> rw [heq] <;> rfl
  · rintro front back tr rfl id
    obtain ⟨hfront, hjoins, -⟩ := hrun.split
    rw [← List.singleton_append, ← List.append_assoc] at hfew
    exact hfront.status_moves hjoins (few_of_append hfew) id
  · rintro front back tr id rfl hgone
    obtain ⟨hfront, hjoins, hback⟩ := hrun.split
    exact Process.leaseAt_of_gone (hfront.gone (.cons hjoins hback) hfew hgone)

end Lifecycle

section Schedule

/-! ## a run -/

/-- A thread takes the frame 2 of the core 1 through its whole life. -/
def lifecycleLabels : List Label :=
  [.pending (.begin 0 (.coreCreate (some ⟨header coreConfigSize, 0⟩) true)),
    .pending (.advance 0),
    ⟨.advance 0, some (.ok, .handle 1)⟩,
    .pending (.begin 0 (.frameLeaseRegister 1 (some frame) true)),
    .pending (.advance 0),
    ⟨.advance 0, some (.ok, .handle 2)⟩,
    .pending (.begin 0 (.frameLeaseAcquire 1 2 1 0 (some (digest none)))),
    .pending (.advance 0),
    .pending (.advance 0),
    .pending (.advance 0),
    ⟨.advance 0, some (.ok, .none)⟩,
    .pending (.begin 0 (.frameLeaseSubmit 1 2 1)),
    .pending (.advance 0),
    .pending (.advance 0),
    .pending (.advance 0),
    ⟨.advance 0, some (.ok, .none)⟩,
    .pending (.begin 0 (.frameLeaseComplete 1 2 1)),
    .pending (.advance 0),
    ⟨.advance 0, some (.ok, .none)⟩,
    .pending (.begin 0 (.frameLeaseRetire 1 2 1)),
    .pending (.advance 0),
    .pending (.advance 0),
    .pending (.advance 0),
    ⟨.advance 0, some (.ok, .none)⟩]

theorem isSome_lifecycleLabels :
    letI := firstTrackSha256
    (Process.initial.recorded lifecycleLabels).isSome := by
  decide +kernel

/-- The process after the life of the frame. -/
def finished : List Transition × Process :=
  letI := firstTrackSha256
  (Process.initial.recorded lifecycleLabels).get isSome_lifecycleLabels

theorem leases_keep_lifecycle_lifecycleLabels :
    letI := firstTrackSha256
    finished.2.status finished.1 2 = .gone ∧ LeaseLifecycle finished.1 finished.2 := by
  let _ := firstTrackSha256
  have hrun : Recorded finished.1 finished.2 :=
    Process.runs_of_recorded (Option.some_get isSome_lifecycleLabels).symm
  exact ⟨by decide +kernel, leases_keep_lifecycle hrun (by decide +kernel)⟩

end Schedule

end StitchEditor.Abi
