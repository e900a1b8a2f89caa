import Mathlib
import StitchEditor.Lib.Fallible
import StitchEditor.Lib.Table
import StitchEditor.Abi.Sections

/-!
# StitchEditor.Abi.Moves

What one step of a thread does to the cores.

A section under a core's lock lets that core evolve (`CoreState.Evolves`):
it touches only leases of its thread, and only a transition submits.  A step
moves one thread, and lets the registry and the cores evolve
(`Process.Step.moves`, `Process.Moves.evolves`).
-/

namespace StitchEditor.Abi

open StitchEditor Fallible

section Moves

variable [Sha256]

/-! ## what a section does to its core -/

/-- The access changes the epoch or the revision of the core. -/
def Access.Disturbs (access : Access) (thread : ThreadId) (core : CoreState) : Prop :=
  match access with
  | .setEpoch epoch => core.owner = thread ∧ core.epoch < epoch
  | .submit batch _ => ∃ core' metadata, core.submit thread batch = .ok (core', metadata) ∧
      core'.revision ≠ core.revision
  | _ => False

/-- The access moves the lease, until then `before`, to `Submitted`. -/
def Access.Submits (access : Access) (thread : ThreadId) (core : CoreState) (id : UInt64)
    (before : Lease) : Prop :=
  ∃ device expected retire, access = .transition id device expected .submitted retire ∧
    core.ownedLease thread id device = .ok before ∧ before.state = expected

/-- What an access of the thread may do to the core. -/
structure CoreState.Evolves (core : CoreState) (thread : ThreadId) (access : Access)
    (core' : CoreState) : Prop where
  /-- The leases of other threads are left alone. -/
  others : ∀ {id : UInt64} {lease : Lease}, core'.leases[id]? = some lease → lease.owner ≠ thread →
    core.leases[id]? = some lease
  /-- A lease becomes submitted by its transition only, which keeps its
  epoch and revision. -/
  submitted : ∀ {id : UInt64} {lease : Lease}, core'.leases[id]? = some lease →
      lease.state = .submitted →
    core.leases[id]? = some lease ∨ ∃ before, access.Submits thread core id before ∧
      lease.metadata.epoch = before.metadata.epoch ∧
      lease.metadata.revision = before.metadata.revision
  steady : access.Disturbs thread core ∨
    core'.epoch = core.epoch ∧ core'.revision = core.revision

namespace CoreState.Evolves

variable {core core' : CoreState} {thread : ThreadId} {access : Access}

theorem of_leases_eq (hleases : core'.leases = core.leases)
    (hsteady : access.Disturbs thread core ∨
      core'.epoch = core.epoch ∧ core'.revision = core.revision) :
    core.Evolves thread access core' where
  others h _ := by rwa [hleases] at h
  submitted h _ := .inl (by rwa [hleases] at h)
  steady := hsteady

theorem refl : core.Evolves thread access core := .of_leases_eq rfl (.inr ⟨rfl, rfl⟩)

/-- A lease of the thread is written. -/
theorem insert {id : UInt64} {lease : Lease} (howner : lease.owner = thread)
    (hsubmits : lease.state = .submitted → ∃ before, access.Submits thread core id before ∧
      lease.metadata.epoch = before.metadata.epoch ∧
      lease.metadata.revision = before.metadata.revision) :
    core.Evolves thread access { core with leases := core.leases.insert id lease } where
  others {a other} h hother := by
    obtain ⟨-, rfl⟩ | ⟨-, h⟩ := Table.getElem?_insert_eq_some_iff.mp h
    · exact absurd howner hother
    · exact h
  submitted {a other} h hstate := by
    obtain ⟨rfl, rfl⟩ | ⟨-, h⟩ := Table.getElem?_insert_eq_some_iff.mp h
    · exact .inr (hsubmits hstate)
    · exact .inl h
  steady := .inr ⟨rfl, rfl⟩

theorem erase {id : UInt64} :
    core.Evolves thread access { core with leases := core.leases.erase id } := by
  have hkept : ∀ {a : UInt64} {lease : Lease}, (core.leases.erase id)[a]? = some lease →
      core.leases[a]? = some lease := fun h => (Table.getElem?_erase_eq_some_iff.mp h).2
  exact ⟨fun h _ => hkept h, fun h _ => .inl (hkept h), .inr ⟨rfl, rfl⟩⟩

theorem setEpoch {epoch : UInt64} (h : core.setEpoch thread epoch = .ok core') :
    core.Evolves thread (.setEpoch epoch) core' := by
  obtain ⟨howner, hle, rfl⟩ := CoreState.setEpoch_eq_ok_iff.mp h
  refine .of_leases_eq rfl ?_
  by_cases hepoch : core.epoch = epoch
  · exact .inr ⟨hepoch.symm, rfl⟩
  · exact .inl ⟨howner, UInt64.lt_of_le_of_ne hle hepoch⟩

theorem submit {batch : StitchCommandBatch} {callback : Bool} {metadata : StitchDiffMetadata}
    (h : core.submit thread batch = .ok (core', metadata)) :
    core.Evolves thread (.submit batch callback) core' := by
  obtain ⟨next, rfl⟩ := CoreState.submit_eq_ok h
  refine .of_leases_eq rfl ?_
  by_cases hrevision : CoreState.revision { core with history := next } = core.revision
  · exact .inr ⟨rfl, hrevision⟩
  · exact .inl ⟨_, _, h, hrevision⟩

theorem transition {id device : UInt64} {expected next : LeaseState} {retire : Option UInt64}
    (h : core.leaseTransition thread id device expected next = .ok core') :
    core.Evolves thread (.transition id device expected next retire) core' := by
  obtain ⟨before, howned, hstate, rfl⟩ := CoreState.leaseTransition_eq_ok_iff.mp h
  refine .insert (CoreState.ownedLease_eq_ok_iff.mp howned).2.2 fun hnext => ?_
  cases hnext
  exact ⟨before, ⟨device, expected, retire, rfl, howned, hstate⟩, rfl, rfl⟩

end CoreState.Evolves

/-- **What an access does** to its core. -/
theorem CoreState.Serves.evolves {core core' : CoreState} {thread : ThreadId} {fresh : UInt64}
    {access : Access} {progress : Progress} (h : core.Serves thread fresh access core' progress) :
    core.Evolves thread access core' := by
  cases h with
  | setEpoch h => exact .setEpoch h
  | snapshot | metadataGet | checkAcquire | checkSubmit => exact .refl
  | submit h => exact .submit h
  | register => exact .insert rfl nofun
  | transition h | retire h => exact .transition h
  | discard h =>
      cases CoreState.discard_eq_ok h
      exact .erase
  | remove => exact .erase

/-! ## what a step does to the process -/

/-- The core has no leases. -/
def Process.Vacant (p : Process) (entry : Nat) : Prop :=
  ∀ ⦃core : CoreState⦄, p.heap[entry]? = some core → core.leases = ∅

/-- What one action of the thread may do to the registry and to the cores. -/
structure Process.Evolves (p : Process) (thread : ThreadId) (action : Action) (q : Process) :
    Prop where
  threads : q.threads = p.threads
  /-- A handle keeps its core, or is given to a new one. -/
  bound : ∀ {handle : UInt64} {entry : Nat}, q.cores[handle]? = some entry →
    p.cores[handle]? = some entry ∨ q.Vacant entry
  /-- A core is new, as it was, or the one whose lock the thread holds. -/
  core : ∀ {entry : Nat} {core' : CoreState}, q.heap[entry]? = some core' →
    core'.leases = ∅ ∨ ∃ core, p.heap[entry]? = some core ∧
      (core' = core ∨ ∃ access, action = .advance thread ∧
        (p.threads thread).pc = some (.locked entry access) ∧ core.Evolves thread access core')

namespace Process.Evolves

variable {p q : Process} {thread : ThreadId} {action : Action}

theorem of_eq (hthreads : q.threads = p.threads) (hcores : q.cores = p.cores)
    (hheap : q.heap = p.heap) : p.Evolves thread action q where
  threads := hthreads
  bound h := .inl (by rwa [hcores] at h)
  core h := .inr ⟨_, by rwa [hheap] at h, .inl rfl⟩

/-- A new core takes a place of its own and has no leases. -/
theorem insertCore {handle epoch : UInt64} :
    p.Evolves thread action { p with
      cores := p.cores.insert handle p.heap.length
      heap := p.heap ++ [⟨.default, epoch, ∅, thread⟩] } where
  threads := rfl
  bound {a entry} h := by
    obtain ⟨-, rfl⟩ | ⟨-, h⟩ := Table.getElem?_insert_eq_some_iff.mp h
    · right
      intro core hcore
      rw [List.getElem?_concat_length] at hcore
      cases hcore
      rfl
    · exact .inl h
  core {entry core'} h := by
    rw [List.getElem?_append] at h
    split at h
    · exact .inr ⟨core', h, .inl rfl⟩
    · left
      have hmem := List.mem_of_getElem? h
      rw [List.mem_singleton] at hmem
      rw [hmem]

theorem locked {entry : Nat} {core core' : CoreState} {access : Access} {progress : Progress}
    (hpc : (p.threads thread).pc = some (.locked entry access))
    (hcore : p.heap[entry]? = some core)
    (h : p.Accesses thread entry core access q progress core') :
    p.Evolves thread (.advance thread) q := by
  refine ⟨h.threads, fun hbound => .inl (by rwa [h.cores] at hbound), fun {other found} hfound =>
    .inr ?_⟩
  rw [h.heap, List.getElem?_set] at hfound
  split at hfound
  · next hentry =>
    subst hentry
    split at hfound
    · cases hfound
      exact ⟨core, hcore, .inr ⟨access, rfl, hpc, h.serves.evolves⟩⟩
    · cases hfound
  · exact ⟨found, hfound, .inl rfl⟩

theorem executes {pc : Pc} {progress : Progress} (hpc : (p.threads thread).pc = some pc)
    (h : p.Executes thread pc q progress) : p.Evolves thread (.advance thread) q := by
  cases h with
  | insertCore => exact .insertCore
  | destroy =>
      exact ⟨rfl, fun h => .inl (Table.getElem?_erase_eq_some_iff.mp h).2,
        fun h => .inr ⟨_, h, .inl rfl⟩⟩
  | locked hcore haccess => exact .locked hpc hcore haccess
  | allocateCore | lookup | allocateDiff | insertDiff | counted => exact .of_eq rfl rfl rfl

end Process.Evolves

/-- **What a step does**: one thread runs a section or begins a call or ends
one, and no other thread notices but through the registry and the cores. -/
inductive Process.Moves (p : Process) (thread : ThreadId) : Action → Process → Option Pc → Prop
  | stop {action : Action} : Moves p thread action p none
  | start {call : Call} {inCallback : Bool} {pc : Pc} (h : call.start inCallback = .ok pc) :
      Moves p thread (.begin thread call) p (some pc)
  | exec {pc : Pc} {q : Process} {progress : Progress} {next : Option Pc}
      (hpc : (p.threads thread).pc = some pc) (h : p.exec thread pc = .ok (q, progress))
      (hnext : ∀ pc', next = some pc' → progress = .continues pc') :
      Moves p thread (.advance thread) q next

theorem Process.Step.moves {p p' : Process} {label : Label} (hstep : p.Step label p') :
    ∃ thread q state, p' = q.setThread thread state ∧
      p.Moves thread label.action q state.pc := by
  have hself : ∀ thread, p = p.setThread thread (p.threads thread) := fun thread => by
    simp [Process.setThread]
  obtain ⟨action, returned⟩ := label
  cases action with
  | begin thread call =>
      simp only [Process.Step, Process.step] at hstep
      split at hstep
      · cases hstep
      · next hpc =>
        split at hstep
        · cases hstep
          exact ⟨thread, p, p.threads thread, hself thread, by rw [hpc]; exact .stop⟩
        · next pc hstart =>
          cases hstep
          exact ⟨thread, p, _, rfl, .start hstart⟩
  | advance thread =>
      obtain ⟨pc, hpc⟩ := Process.Step.pc hstep
      obtain ⟨error, -, -, rfl⟩ | ⟨q, progress, hexec, -, rfl⟩ := Process.Step.exec hstep hpc
      · exact ⟨thread, p, _, rfl, .stop⟩
      · refine ⟨thread, q, _, rfl, .exec hpc hexec fun pc' hnext => ?_⟩
        cases progress <;> cases hnext
        rfl
  | endCallback thread =>
      simp only [Process.Step, Process.step] at hstep
      split at hstep
      · cases hstep
        exact ⟨thread, p, _, rfl, .stop⟩
      · cases hstep

theorem Process.Moves.evolves {p q : Process} {thread : ThreadId} {action : Action}
    {next : Option Pc} (hmoves : p.Moves thread action q next) : p.Evolves thread action q := by
  cases hmoves with
  | stop => exact .of_eq rfl rfl rfl
  | start _ => exact .of_eq rfl rfl rfl
  | exec hpc h _ => exact .executes hpc (Process.exec_executes h)

end Moves

end StitchEditor.Abi
