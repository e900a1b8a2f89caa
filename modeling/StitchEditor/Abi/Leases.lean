import Mathlib
import StitchEditor.Lib.Table
import StitchEditor.Abi.Handles

/-!
# StitchEditor.Abi.Leases

What a section does to one lease, and to the rest of its core.

A lease enters its core when it is registered and leaves it when it is
discarded or, at the end of its retirement, removed; in between its state
moves and nothing else of it changes (`Lease.Moves`).
-/

namespace StitchEditor.Abi

open StitchEditor Fallible Run

/-- A lease as it is registered. -/
def StitchFrameMetadata.lease (metadata : StitchFrameMetadata) (thread : ThreadId) (id : UInt64) :
    Lease :=
  ⟨{ metadata with leaseId := id, ownerThreadToken := id }, .registered, thread⟩

/-- A lease in another state. -/
def Lease.inState (lease : Lease) (state : LeaseState) : Lease :=
  { lease with state := state, metadata := { lease.metadata with state := state.toUInt32 } }

/-- What an access of the thread makes of the lease of the id; `fresh` is the
next handle. -/
inductive Lease.Moves (thread : ThreadId) (fresh id : UInt64) :
    Access → Option Lease → Option Lease → Prop where
  | keeps {access : Access} {lease : Option Lease} : Moves thread fresh id access lease lease
  | registers {metadata : StitchFrameMetadata} {old : Option Lease} (hfresh : id = fresh) :
      Moves thread fresh id (.register metadata) old (some (metadata.lease thread id))
  | transitions {device : UInt64} {expected next : LeaseState} {retire : Option UInt64}
      {lease : Lease} (howner : lease.owner = thread)
      (hdevice : lease.metadata.deviceGeneration = device) (hstate : lease.state = expected) :
      Moves thread fresh id (.transition id device expected next retire) (some lease)
        (some (lease.inState next))
  | discards {device : UInt64} {lease : Lease} (howner : lease.owner = thread)
      (hdevice : lease.metadata.deviceGeneration = device)
      (hstate : lease.state = .registered ∨ lease.state = .acquired) :
      Moves thread fresh id (.discard id device) (some lease) none
  | removes {old : Option Lease} : Moves thread fresh id (.remove id) old none

/-- Where a lease comes from: it was there, perhaps in another state, or is
new. -/
theorem Lease.Moves.origin {thread : ThreadId} {fresh id : UInt64} {access : Access}
    {old new : Option Lease} (h : Lease.Moves thread fresh id access old new) {lease' : Lease}
    (hnew : new = some lease') :
    (∃ lease, old = some lease ∧ (lease' = lease ∨ ∃ state, lease' = lease.inState state)) ∨
      ∃ metadata, access = .register metadata ∧ id = fresh ∧ lease' = metadata.lease thread id := by
  cases h with
  | keeps => exact .inl ⟨lease', hnew, .inl rfl⟩
  | registers hfresh => exact .inr ⟨_, rfl, hfresh, (Option.some.inj hnew).symm⟩
  | transitions _ _ _ => exact .inl ⟨_, rfl, .inr ⟨_, (Option.some.inj hnew).symm⟩⟩
  | discards _ _ _ | removes => cases hnew

namespace CoreState

variable {self core : CoreState} {thread : ThreadId} {leaseId device id : UInt64}

theorem discard_eq_ok_iff : self.discard thread leaseId device = .ok core ↔
    ∃ lease, self.ownedLease thread leaseId device = .ok lease ∧
      (lease.state = .registered ∨ lease.state = .acquired) ∧
      core = { self with leases := self.leases.erase leaseId } := by
  simp only [discard, bind_eq_ok_iff, refuse_eq_ok_iff, pure_eq_ok_iff, exists_const, not_and_or,
    not_not, eq_comm (a := core)]

theorem moves_of_leaseTransition {fresh : UInt64} {expected next : LeaseState}
    {retire : Option UInt64}
    (h : self.leaseTransition thread leaseId device expected next = .ok core) :
    Lease.Moves thread fresh id (.transition leaseId device expected next retire)
      self.leases[id]? core.leases[id]? := by
  obtain ⟨lease, howned, hstate, rfl⟩ := leaseTransition_eq_ok_iff.mp h
  obtain ⟨hlease, hdevice, howner⟩ := ownedLease_eq_ok_iff.mp howned
  rw [Table.getElem?_insert_eq]
  by_cases hid : id = leaseId
  · subst hid
    rw [if_pos rfl, hlease]
    exact .transitions howner hdevice hstate
  · rw [if_neg hid]
    exact .keeps

variable [Sha256] {fresh : UInt64} {access : Access} {progress : Progress}

/-- **What a section does to one lease.** -/
theorem Serves.moves (h : self.Serves thread fresh access core progress) (id : UInt64) :
    Lease.Moves thread fresh id access self.leases[id]? core.leases[id]? := by
  cases h with
  | setEpoch hset =>
      obtain ⟨-, -, rfl⟩ := setEpoch_eq_ok_iff.mp hset
      exact .keeps
  | submit hsubmit =>
      obtain ⟨next, rfl⟩ := submit_eq_ok hsubmit
      exact .keeps
  | @register metadata hcheck =>
      rw [insertLease, Table.getElem?_insert_eq]
      by_cases hid : id = fresh
      · subst hid
        rw [if_pos rfl]
        exact .registers rfl
      · rw [if_neg hid]
        exact .keeps
  | transition htransition | retire htransition => exact moves_of_leaseTransition htransition
  | @discard leaseId device _ hdiscard =>
      obtain ⟨lease, howned, hstate, rfl⟩ := discard_eq_ok_iff.mp hdiscard
      obtain ⟨hlease, hdevice, howner⟩ := ownedLease_eq_ok_iff.mp howned
      rw [Table.getElem?_erase_eq]
      by_cases hid : id = leaseId
      · subst hid
        rw [if_pos rfl, hlease]
        exact .discards howner hdevice hstate
      · rw [if_neg hid]
        exact .keeps
  | @remove leaseId =>
      rw [removeLease, Table.getElem?_erase_eq]
      by_cases hid : id = leaseId
      · subst hid
        rw [if_pos rfl]
        exact .removes
      · rw [if_neg hid]
        exact .keeps
  | snapshot | metadataGet _ | checkAcquire _ | checkSubmit _ => exact .keeps

/-- A section keeps the owner of the core, and never lowers its epoch. -/
theorem Serves.owner_epoch (h : self.Serves thread fresh access core progress) :
    core.owner = self.owner ∧ self.epoch ≤ core.epoch := by
  cases h with
  | setEpoch hset =>
      obtain ⟨-, hle, rfl⟩ := setEpoch_eq_ok_iff.mp hset
      exact ⟨rfl, hle⟩
  | submit hsubmit =>
      obtain ⟨next, rfl⟩ := submit_eq_ok hsubmit
      exact ⟨rfl, UInt64.le_refl _⟩
  | transition htransition | retire htransition =>
      obtain ⟨_, -, -, rfl⟩ := leaseTransition_eq_ok_iff.mp htransition
      exact ⟨rfl, UInt64.le_refl _⟩
  | discard hdiscard =>
      obtain rfl := discard_eq_ok hdiscard
      exact ⟨rfl, UInt64.le_refl _⟩
  | register _ | remove | snapshot | metadataGet _ | checkAcquire _ | checkSubmit _ =>
      exact ⟨rfl, UInt64.le_refl _⟩

end CoreState

/-! ## leases by entry -/

/-- The lease of the id in the core of the entry. -/
def Process.leaseAt (self : Process) (entry : Nat) (id : UInt64) : Option Lease :=
  self.heap[entry]?.bind fun core => core.leases[id]?

theorem Process.leaseAt_eq_some_iff {self : Process} {entry : Nat} {id : UInt64} {lease : Lease} :
    self.leaseAt entry id = some lease ↔
      ∃ core, self.heap[entry]? = some core ∧ core.leases[id]? = some lease :=
  Option.bind_eq_some_iff

section Transitions

variable [Sha256]

namespace Transition

/-- A registration for the entry's core returns the id. -/
def Registers (tr : Transition) (entry : Nat) (id : UInt64) : Prop :=
  ∃ thread metadata, tr.label = ⟨.advance thread, some (.ok, .handle id)⟩ ∧
    (tr.before.threads thread).pc = some (.locked entry (.register metadata))

variable {tr : Transition} {entry : Nat}

theorem Serves.registers {thread : ThreadId} {metadata : StitchFrameMetadata}
    {core core' : CoreState} {progress : Progress}
    (h : tr.Serves entry thread (.register metadata) core core' progress) :
    tr.Registers entry tr.before.freshHandle := by
  refine ⟨thread, metadata, ?_, h.pc⟩
  rw [h.label]
  cases h.serves
  rfl

/-- A core that is there is served, or stays as it is. -/
theorem On.of_found {core : CoreState} (h : tr.On entry)
    (hcore : tr.before.heap[entry]? = some core) :
    (∃ thread access core' progress, tr.Serves entry thread access core core' progress) ∨
      (tr.Spares entry ∧ tr.after.heap[entry]? = some core) := by
  cases h with
  | @serves thread access _ core' progress hserves =>
      obtain rfl := Option.some.inj (hcore.symm.trans hserves.found)
      exact .inl ⟨thread, access, core', progress, hserves⟩
  | creates _ hbefore _ =>
      rw [hbefore] at hcore
      cases hcore
  | keeps hspares hheap => exact .inr ⟨hspares, hheap.trans hcore⟩

end Transition

/-- **A core along a run**: it stays, and keeps what every section under its
lock keeps. -/
theorem exists_core_of_runs {R : CoreState → Prop} {p q : Process} {trs : List Transition}
    {entry : Nat} {core : CoreState} (hrun : Runs Transition.Joins p trs q)
    (hcore : p.heap[entry]? = some core) (hstart : R core)
    (hstep : ∀ tr ∈ trs, ∀ ⦃thread access core core' progress⦄,
      tr.Serves entry thread access core core' progress → R core → R core') :
    ∃ core', q.heap[entry]? = some core' ∧ R core' := by
  induction hrun with
  | nil => exact ⟨core, hcore, hstart⟩
  | @snoc trs _ _ tr _ hjoins ih =>
      obtain ⟨core₁, hcore₁, h₁⟩ := ih fun tr htr => hstep tr (List.mem_append_left _ htr)
      have hon := hjoins.on entry
      obtain ⟨rfl, rfl, -⟩ := hjoins
      obtain ⟨thread, access, core₂, progress, hserves⟩ | ⟨-, hafter⟩ := hon.of_found hcore₁
      · exact ⟨core₂, hserves.after, hstep tr (by simp) hserves h₁⟩
      · exact ⟨core₁, hafter, h₁⟩

section AtLease

variable {p p' : Process} {tr : Transition} {entry : Nat} {id : UInt64}

/-- What a transition does to one lease. -/
inductive Transition.AtLease (tr : Transition) (entry : Nat) (id : UInt64) : Prop where
  | keeps (h : tr.after.leaseAt entry id = tr.before.leaseAt entry id)
  | moves {thread : ThreadId} {access : Access} (haction : tr.label.action = .advance thread)
      (hpc : (tr.before.threads thread).pc = some (.locked entry access))
      (hmoves : Lease.Moves thread tr.before.freshHandle id access (tr.before.leaseAt entry id)
        (tr.after.leaseAt entry id))
      (hregisters : ∀ metadata, access = .register metadata →
        tr.Registers entry tr.before.freshHandle ∧ tr.allocates)

theorem Transition.Joins.atLease (h : Transition.Joins p tr p') (entry : Nat) (id : UInt64) :
    tr.AtLease entry id := by
  cases h.on entry with
  | creates _ hbefore hafter =>
      refine .keeps ?_
      rw [Process.leaseAt, Process.leaseAt, hbefore, hafter]
      simp
  | keeps _ hheap => exact .keeps (by rw [Process.leaseAt, Process.leaseAt, hheap])
  | @serves thread access core core' progress hserves =>
      have hmoves := hserves.serves.moves id
      refine .moves (by rw [hserves.label]) hserves.pc ?_ ?_
      · rw [Process.leaseAt, Process.leaseAt, hserves.found, hserves.after]
        exact hmoves
      · rintro metadata rfl
        refine ⟨hserves.registers, ?_⟩
        simp [Transition.allocates, hserves.nextHandle, Access.allocates]

/-- A registration returns the next handle. -/
theorem Transition.Registers.eq_freshHandle (h : tr.Registers entry id)
    (hjoins : Transition.Joins p tr p') :
    id = tr.before.freshHandle ∧ tr.allocates ∧
      ∃ lease, tr.after.leaseAt entry id = some lease := by
  obtain ⟨thread, metadata, hlabel, hpc⟩ := h
  have hspares : ¬ tr.Spares entry := by
    intro hspares
    obtain ⟨-, error, hreturned⟩ := hspares (by rw [hlabel]) hpc
    rw [hlabel] at hreturned
    cases hreturned
  cases hjoins.on entry with
  | creates h _ _ | keeps h _ => exact absurd h hspares
  | @serves thread' access core core' progress hserves =>
      have hthread := hserves.label.symm.trans hlabel
      have hother := hserves.pc
      obtain rfl : thread' = thread := Action.advance.inj (Label.mk.inj hthread).1
      rw [hpc] at hother
      cases hother
      have hallocates : tr.allocates := by
        simp [Transition.allocates, hserves.nextHandle, Access.allocates]
      cases hserves.serves with
      | register _ =>
          cases hthread
          refine ⟨rfl, hallocates, metadata.lease thread' tr.before.freshHandle,
            Process.leaseAt_eq_some_iff.mpr ⟨_, hserves.after, ?_⟩⟩
          exact Std.ExtTreeMap.getElem?_insert_self

omit [Sha256] in
/-- Where a lease comes from. -/
theorem Transition.AtLease.origin (h : tr.AtLease entry id) {lease' : Lease}
    (hlease' : tr.after.leaseAt entry id = some lease') :
    (∃ lease, tr.before.leaseAt entry id = some lease ∧
        (lease' = lease ∨ ∃ state, lease' = lease.inState state)) ∨
      ∃ thread metadata, tr.label = ⟨.advance thread, some (.ok, .handle id)⟩ ∧
        (tr.before.threads thread).pc = some (.locked entry (.register metadata)) ∧
        lease' = metadata.lease thread id ∧ id = tr.before.freshHandle ∧ tr.allocates := by
  cases h with
  | keeps h => exact .inl ⟨lease', h ▸ hlease', .inl rfl⟩
  | @moves thread access haction hpc hmoves hregisters =>
      obtain hold | ⟨metadata, rfl, rfl, rfl⟩ := hmoves.origin hlease'
      · exact .inl hold
      · obtain ⟨⟨other, _, hlabel, -⟩, hallocates⟩ := hregisters metadata rfl
        have hother : Action.advance other = .advance thread := by rw [← haction, hlabel]
        cases hother
        exact .inr ⟨thread, metadata, hlabel, hpc, rfl, rfl, hallocates⟩

end AtLease

end Transitions

end StitchEditor.Abi
