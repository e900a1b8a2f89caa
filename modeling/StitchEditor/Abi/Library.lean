import Mathlib
import StitchEditor.Abi.Atomic
import StitchEditor.Abi.Sequential

/-!
# StitchEditor.Abi.Library

What the one thread that edits has of the library: its cores, its snapshots and
its diffs (`Library`), and how they answer its calls (`OwnerCall.Served`).

The other threads move frame leases.  They leave alone the histories and the
epochs of the cores and the tables of snapshots and diffs
(`Process.Owns.interferes`).  Only a destruction depends on the leases.

A submit first calls back, with the owner's own calls in between, and returns
when the callback has ended.
-/

namespace StitchEditor.Abi

open StitchEditor Fallible

/-! ## calls and answers -/

/-- The calls of an owner whose pointers are all there, and the end of a
callback that it is in. -/
inductive OwnerCall where
  | create (epoch : UInt64)
  | destroy (core : UInt64)
  | setEpoch (core epoch : UInt64)
  | snapshot (core : UInt64)
  | submit (core : UInt64) (batch : StitchCommandBatch)
  | snapshotMetadataGet (handle : UInt64)
  | snapshotRelease (handle : UInt64)
  | diffMetadataGet (handle : UInt64)
  | diffRelease (handle : UInt64)
  | endCallback

/-- The call returns, or calls back on a thread. -/
inductive OwnerReply where
  | returned (result : StitchResult) (output : Output)
  | callback (thread : ThreadId) (diff : UInt64)
  deriving DecidableEq

/-- What the thread does for the call. -/
def OwnerCall.action (thread : ThreadId) : OwnerCall → Action
  | .create epoch => .begin thread (.coreCreate (some ⟨header coreConfigSize, epoch⟩) true)
  | .destroy core => .begin thread (.coreDestroy core)
  | .setEpoch core epoch => .begin thread (.coreSetEpoch core epoch)
  | .snapshot core => .begin thread (.coreSnapshot core true)
  | .submit core batch => .begin thread (.coreSubmit core (some batch) true true)
  | .snapshotMetadataGet handle => .begin thread (.snapshotMetadataGet handle true)
  | .snapshotRelease handle => .begin thread (.snapshotRelease handle)
  | .diffMetadataGet handle => .begin thread (.diffMetadataGet handle true)
  | .diffRelease handle => .begin thread (.diffRelease handle)
  | .endCallback => .endCallback thread

/-- What the thread sees of its own step. -/
def Process.reply (thread : ThreadId) :
    Process × Option (StitchResult × Output) → Process × Option OwnerReply
  | (p, some (result, output)) => (p, some (.returned result output))
  | (p, none) => match p.threads thread with
    | ⟨some diff, none⟩ => (p, some (.callback thread diff))
    | _ => (p, none)

/-! ## the tables of the owner -/

/-- A core without its leases. -/
def CoreState.bare (self : CoreState) : CoreState := { self with leases := ∅ }

/-- The library as the owner of all cores, snapshots and diffs sees it, and the
callback that it is in. -/
structure Library where
  cores : OrdMap UInt64 CoreState
  snapshots : OrdMap UInt64 (RefHandle StitchSnapshotMetadata)
  diffs : OrdMap UInt64 (RefHandle StitchDiffMetadata)
  callback : Option UInt64

def Library.empty : Library := ⟨∅, ∅, ∅, none⟩

/-- The handle is not in use. -/
structure Library.Unused (lib : Library) (handle : UInt64) : Prop where
  core : handle ∉ lib.cores
  snapshot : handle ∉ lib.snapshots
  diff : handle ∉ lib.diffs

theorem Library.Unused.of_insertCore {lib : Library} {handle core : UInt64} {next : CoreState}
    (h : { lib with cores := lib.cores.insert core next }.Unused handle) : lib.Unused handle where
  core hmem := h.core (Std.ExtTreeMap.mem_insert.mpr (.inr hmem))
  snapshot := h.snapshot
  diff := h.diff

section Serving

variable [Sha256]

/-- The call passes whatever the leases are. -/
def OwnerCall.Succeeds (thread : ThreadId) (lib : Library) : OwnerCall → Prop
  | .create _ => True
  | .destroy core => lib.callback = none ∧ core ∈ lib.cores
  | .setEpoch core epoch => lib.callback = none ∧
      ∃ found next, lib.cores[core]? = some found ∧ found.setEpoch thread epoch = .ok next
  | .snapshot core => core ∈ lib.cores
  | .submit core batch => lib.callback = none ∧ checkBatch batch = .ok () ∧
      ∃ found next, lib.cores[core]? = some found ∧ found.submit thread batch = .ok next
  | .snapshotMetadataGet handle => handle ∈ lib.snapshots
  | .snapshotRelease handle => handle ∈ lib.snapshots
  | .diffMetadataGet handle => handle ∈ lib.diffs
  | .diffRelease handle => handle ∈ lib.diffs
  | .endCallback => True

/-- What the tables answer to a call of the owner, and what it makes of
them. -/
inductive OwnerCall.Served (thread : ThreadId) :
    Library → OwnerCall → OwnerReply → Library → Prop where
  | fails {lib : Library} {call : OwnerCall} {error : StitchResult} (herror : error ≠ .ok)
      (hsucceeds : ¬ call.Succeeds thread lib) : Served thread lib call (.returned error .none) lib
  | creates {lib : Library} {epoch handle : UInt64} (hhandle : handle ≠ 0)
      (hunused : lib.Unused handle) :
      Served thread lib (.create epoch) (.returned .ok (.handle handle))
        { lib with cores := lib.cores.insert handle ⟨.default, epoch, ∅, thread⟩ }
  | destroys {lib : Library} {core : UInt64} :
      Served thread lib (.destroy core) (.returned .ok .none)
        { lib with cores := lib.cores.erase core }
  | keeps {lib : Library} {core : UInt64} :
      Served thread lib (.destroy core) (.returned .badLeaseState .none) lib
  | setsEpoch {lib : Library} {core epoch : UInt64} {found next : CoreState}
      (hfound : lib.cores[core]? = some found) (hset : found.setEpoch thread epoch = .ok next) :
      Served thread lib (.setEpoch core epoch) (.returned .ok .none)
        { lib with cores := lib.cores.insert core next }
  | opens {lib : Library} {core handle : UInt64} {found : CoreState}
      (hfound : lib.cores[core]? = some found) (hhandle : handle ≠ 0)
      (hunused : lib.Unused handle) :
      Served thread lib (.snapshot core) (.returned .ok (.handle handle))
        { lib with snapshots := lib.snapshots.insert handle ⟨found.snapshotMetadata, 1⟩ }
  | submits {lib : Library} {core diff : UInt64} {batch : StitchCommandBatch}
      {found next : CoreState} {metadata : StitchDiffMetadata}
      (hfound : lib.cores[core]? = some found)
      (hsubmit : found.submit thread batch = .ok (next, metadata)) (hdiff : diff ≠ 0)
      (hunused : lib.Unused diff) :
      Served thread lib (.submit core batch) (.callback thread diff)
        { lib with
          cores := lib.cores.insert core next
          diffs := lib.diffs.insert diff ⟨metadata, 1⟩
          callback := some diff }
  | ends {lib : Library} {diff : UInt64} (hcallback : lib.callback = some diff) :
      Served thread lib .endCallback (.returned .ok (.handle diff)) { lib with callback := none }
  | readsSnapshot {lib : Library} {snapshot : UInt64} {metadata : StitchSnapshotMetadata}
      (hget : metadataGet lib.snapshots snapshot true = .ok metadata) :
      Served thread lib (.snapshotMetadataGet snapshot)
        (.returned .ok (.snapshotMetadata metadata)) lib
  | releasesSnapshot {lib : Library} {snapshot : UInt64}
      {snapshots : OrdMap UInt64 (RefHandle StitchSnapshotMetadata)}
      (hrelease : release lib.snapshots snapshot = .ok snapshots) :
      Served thread lib (.snapshotRelease snapshot) (.returned .ok .none)
        { lib with snapshots := snapshots }
  | readsDiff {lib : Library} {diff : UInt64} {metadata : StitchDiffMetadata}
      (hget : metadataGet lib.diffs diff true = .ok metadata) :
      Served thread lib (.diffMetadataGet diff) (.returned .ok (.diffMetadata metadata)) lib
  | releasesDiff {lib : Library} {diff : UInt64}
      {diffs : OrdMap UInt64 (RefHandle StitchDiffMetadata)}
      (hrelease : release lib.diffs diff = .ok diffs) :
      Served thread lib (.diffRelease diff) (.returned .ok .none) { lib with diffs := diffs }

end Serving

/-! ## bare cores -/

section Bare

variable [Sha256] {core core' : CoreState} {thread : ThreadId}

omit [Sha256] in
@[simp] theorem CoreState.bare_revision (core : CoreState) : core.bare.revision = core.revision :=
  rfl

theorem CoreState.bare_snapshotMetadata (core : CoreState) :
    core.bare.snapshotMetadata = core.snapshotMetadata := rfl

omit [Sha256] in
/-- An epoch is set whatever the leases are. -/
theorem CoreState.setEpoch_bare_iff {epoch : UInt64} :
    (∃ next, core.bare.setEpoch thread epoch = .ok next) ↔
      ∃ next, core.setEpoch thread epoch = .ok next := by
  simp only [setEpoch_eq_ok_iff, CoreState.bare, exists_and_left, exists_eq]

omit [Sha256] in
theorem CoreState.setEpoch_bare {epoch : UInt64} (h : core.setEpoch thread epoch = .ok core') :
    core.bare.setEpoch thread epoch = .ok core'.bare := by
  obtain ⟨howner, hle, rfl⟩ := setEpoch_eq_ok_iff.mp h
  exact setEpoch_eq_ok_iff.mpr ⟨howner, hle, rfl⟩

theorem CoreState.submit_bare {batch : StitchCommandBatch} {metadata : StitchDiffMetadata}
    (h : core.submit thread batch = .ok (core', metadata)) :
    core.bare.submit thread batch = .ok (core'.bare, metadata) := by
  have haccepts := submit_eq_ok_iff.mp h
  refine submit_eq_ok_iff.mpr { haccepts with keeps := ?_ }
  rw [CoreState.bare, haccepts.keeps]
  rfl

/-- A batch is accepted whatever the leases are. -/
theorem CoreState.exists_submit {batch : StitchCommandBatch} {next : CoreState × StitchDiffMetadata}
    (h : core.bare.submit thread batch = .ok next) :
    ∃ next', core.submit thread batch = .ok next' := by
  obtain ⟨core', metadata⟩ := next
  have haccepts := submit_eq_ok_iff.mp h
  refine ⟨({ core with history := core'.history }, metadata), submit_eq_ok_iff.mpr ?_⟩
  exact { haccepts with keeps := rfl }

end Bare

/-! ## the other threads -/

/-- The access reads or moves a lease. -/
def Access.Leasing : Access → Prop
  | .setEpoch _ => False
  | .snapshot => False
  | .submit _ _ => False
  | _ => True

/-- The section is one of a frame-lease call. -/
def Pc.Leasing : Pc → Prop
  | .lookup _ access => access.Leasing
  | .locked _ access => access.Leasing
  | _ => False

def Call.leases : Call → Bool
  | .frameLeaseRegister _ _ _ => true
  | .frameLeaseMetadataGet _ _ _ => true
  | .frameLeaseAcquire _ _ _ _ _ => true
  | .frameLeaseDiscard _ _ _ => true
  | .frameLeaseSubmit _ _ _ => true
  | .frameLeaseComplete _ _ _ => true
  | .frameLeaseRetire _ _ _ => true
  | _ => false

/-- Another thread than this one acts, and the calls that it begins are
frame-lease calls. -/
def Action.leases (thread : ThreadId) : Action → Bool
  | .begin other call => other ≠ thread && call.leases
  | .advance other => other ≠ thread
  | .endCallback other => other ≠ thread

theorem Call.leasing_of_start {call : Call} {inCallback : Bool} {pc : Pc} (hleases : call.leases)
    (h : call.start inCallback = .ok pc) : pc.Leasing := by
  cases call with
  | frameLeaseRegister core metadata outLease =>
      simp only [Call.start, bind_eq_ok_iff, pure_eq_ok_iff] at h
      obtain ⟨_, -, _, -, _, -, _, -, rfl⟩ := h
      trivial
  | frameLeaseMetadataGet core lease outMetadata =>
      cases h
      trivial
  | frameLeaseAcquire core lease device epoch revision =>
      simp only [Call.start, bind_eq_ok_iff, pure_eq_ok_iff] at h
      obtain ⟨_, -, _, -, rfl⟩ := h
      trivial
  | frameLeaseDiscard core lease device | frameLeaseSubmit core lease device
  | frameLeaseComplete core lease device | frameLeaseRetire core lease device =>
      simp only [Call.start, bind_eq_ok_iff, pure_eq_ok_iff] at h
      obtain ⟨_, -, rfl⟩ := h
      trivial
  | coreCreate _ _ | coreDestroy _ | coreSetEpoch _ _ | coreSnapshot _ _ | coreSubmit _ _ _ _
  | snapshotRetain _ | snapshotRelease _ | snapshotMetadataGet _ _ | diffRetain _ | diffRelease _
  | diffMetadataGet _ _ => cases hleases

/-- The counter of handles does not run over with the next one. -/
def Process.Room (p : Process) : Prop := p.nextHandle < p.nextHandle + 1

instance (p : Process) : Decidable p.Room := inferInstanceAs (Decidable (_ < _))

/-- The tables of the process are those of the library, but for the leases. -/
structure Process.Shows (p : Process) (thread : ThreadId) (lib : Library) : Prop where
  cores : ∀ handle, (p.core? handle).map CoreState.bare = lib.cores[handle]?
  owner : ∀ ⦃handle : UInt64⦄ ⦃core : CoreState⦄, lib.cores[handle]? = some core →
    core.owner = thread
  placed : ∀ ⦃handle : UInt64⦄ ⦃entry : Nat⦄, p.cores[handle]? = some entry → entry < p.heap.length
  apart : ∀ ⦃handle other : UInt64⦄ ⦃entry : Nat⦄, p.cores[handle]? = some entry →
    p.cores[other]? = some entry → handle = other
  snapshots : p.snapshots = lib.snapshots
  diffs : p.diffs = lib.diffs
  positive : 0 < p.nextHandle
  unused : ∀ ⦃handle⦄, p.nextHandle ≤ handle → lib.Unused handle

/-- The thread, about to run the section, owns all but the leases, and the others
are within frame-lease calls at most. -/
structure Process.Owns (p : Process) (thread : ThreadId) (pc : Option Pc) (lib : Library) :
    Prop where
  stands : p.threads thread = ⟨lib.callback, pc⟩
  others : ∀ ⦃other pc⦄, other ≠ thread → (p.threads other).pc = some pc → pc.Leasing
  shows : p.Shows thread lib

theorem Process.Shows.mem_cores {p : Process} {thread : ThreadId} {lib : Library} {handle : UInt64}
    (h : p.Shows thread lib) (hmem : handle ∈ p.cores) : handle ∈ lib.cores := by
  obtain ⟨entry, hentry⟩ := Table.mem_iff_exists.mp hmem
  rw [Table.mem_iff_exists, ← h.cores handle, Process.core?, hentry, Option.bind_some,
    List.getElem?_eq_getElem (h.placed hentry)]
  exact ⟨_, rfl⟩

/-- At the start every thread owns the empty library. -/
theorem Process.Owns.initial {thread : ThreadId} :
    Process.initial.Owns thread none Library.empty where
  stands := rfl
  others _ _ _ hpc := by cases hpc
  shows := {
    cores := fun _ => rfl
    owner := fun _ _ h => by cases h
    placed := fun _ _ h => by cases h
    apart := fun _ _ _ h => by cases h
    snapshots := rfl
    diffs := rfl
    positive := by decide
    unused := fun _ _ => ⟨Std.ExtTreeMap.not_mem_empty, Std.ExtTreeMap.not_mem_empty,
      Std.ExtTreeMap.not_mem_empty⟩ }

section Threads

variable [Sha256] {p q : Process} {thread other : ThreadId} {handle : UInt64} {entry : Nat}
  {pc : Option Pc} {lib : Library} {core core' : CoreState}

omit [Sha256] in
/-- A core is found where its entry has changed. -/
theorem Process.core?_of_set (hcores : q.cores = p.cores) (hheap : q.heap = p.heap.set entry core')
    (hlt : entry < p.heap.length) (handle : UInt64) :
    q.core? handle = if p.cores[handle]? = some entry then some core' else p.core? handle := by
  simp only [Process.core?, hcores, hheap]
  cases hbound : p.cores[handle]? with
  | none => simp
  | some found =>
      simp only [Option.bind_some, Option.some.injEq]
      split
      · next heq => rw [heq, List.getElem?_set_self hlt]
      · next hne => rw [List.getElem?_set_ne (Ne.symm hne)]

omit [Sha256] in
theorem Process.Room.lt_iff (h : p.Room) {handle : UInt64} :
    p.nextHandle + 1 ≤ handle ↔ p.nextHandle < handle := by
  have h : p.nextHandle.toNat < (p.nextHandle + 1).toNat := h
  rw [UInt64.toNat_add] at h
  have hone : (1 : UInt64).toNat = 1 := rfl
  rw [UInt64.le_iff_toNat_le, UInt64.lt_iff_toNat_lt, UInt64.toNat_add]
  omega

/-- What a section of another thread leaves as it was: all but the leases. -/
structure Process.KeepsOwned (p q : Process) : Prop where
  cores : q.cores = p.cores
  heap : q.heap.map CoreState.bare = p.heap.map CoreState.bare
  snapshots : q.snapshots = p.snapshots
  diffs : q.diffs = p.diffs
  threads : q.threads = p.threads
  counter : q.nextHandle = p.nextHandle ∨ q.nextHandle = p.nextHandle + 1

omit [Sha256] in
theorem Process.KeepsOwned.core? (h : p.KeepsOwned q) (handle : UInt64) :
    (q.core? handle).map CoreState.bare = (p.core? handle).map CoreState.bare := by
  simp only [Process.core?, h.cores, Option.map_bind]
  congr 1
  funext entry
  simp only [Function.comp_apply, ← List.getElem?_map, h.heap]

omit [Sha256] in
theorem Process.KeepsOwned.le (h : p.KeepsOwned q) (hroom : p.Room) :
    p.nextHandle ≤ q.nextHandle := by
  obtain heq | heq := h.counter
  · exact UInt64.le_of_eq heq.symm
  · rw [heq]
    exact UInt64.le_of_lt hroom

omit [Sha256] in
/-- What is only read or moved shows the same tables. -/
theorem Process.Shows.keeps (h : p.Shows thread lib) (hkeeps : p.KeepsOwned q) (hroom : p.Room) :
    q.Shows thread lib where
  cores handle := by rw [hkeeps.core?, h.cores]
  owner := h.owner
  placed handle entry hbound := by
    have hlength := congrArg List.length hkeeps.heap
    simp only [List.length_map] at hlength
    rw [hlength]
    exact h.placed (hkeeps.cores ▸ hbound)
  apart := by
    rw [hkeeps.cores]
    exact h.apart
  snapshots := hkeeps.snapshots.trans h.snapshots
  diffs := hkeeps.diffs.trans h.diffs
  positive := UInt64.lt_of_lt_of_le h.positive (hkeeps.le hroom)
  unused _ hle := h.unused (UInt64.le_trans (hkeeps.le hroom) hle)

omit [Sha256] in
theorem Process.KeepsOwned.refl (p : Process) : p.KeepsOwned p :=
  ⟨rfl, rfl, rfl, rfl, rfl, .inl rfl⟩

/-- A frame-lease access leaves all but the leases. -/
theorem CoreState.Serves.bare_eq {fresh : UInt64} {access : Access} {progress : Progress}
    (h : core.Serves other fresh access core' progress) (hleasing : access.Leasing) :
    core'.bare = core.bare := by
  cases h with
  | setEpoch _ | snapshot | submit _ => cases hleasing
  | register _ | metadataGet _ | checkAcquire _ | checkSubmit _ | remove => rfl
  | transition h | retire h =>
      obtain ⟨_, -, -, rfl⟩ := leaseTransition_eq_ok_iff.mp h
      rfl
  | discard h =>
      obtain ⟨_, -, -, rfl⟩ := discard_eq_ok_iff.mp h
      rfl

theorem Process.access_snapshots {access : Access} {progress : Progress}
    (h : p.access other entry core access = .ok (q, progress)) (hleasing : access.Leasing) :
    q.snapshots = p.snapshots := by
  cases access with
  | setEpoch _ | snapshot | submit _ _ => cases hleasing
  | metadataGet id out =>
      simp only [Process.access] at h
      split at h
      · cases h
      · simp only [bind_eq_ok_iff, pure_eq_ok_iff, Prod.mk.injEq] at h
        obtain ⟨_, -, rfl, -⟩ := h
        rfl
  | remove id =>
      cases h
      rfl
  | register _ | checkAcquire _ _ _ _ _ | checkSubmit _ _ _ | transition _ _ _ _ _ | discard _ _ =>
      simp only [Process.access, bind_eq_ok_iff, pure_eq_ok_iff, Prod.mk.injEq] at h
      obtain ⟨_, -, rfl, -⟩ := h
      rfl

/-- A section of a frame-lease call leaves all but the leases, and leads to
another one. -/
theorem Process.exec_leasing {pc : Pc} {progress : Progress}
    (h : p.exec other pc = .ok (q, progress)) (hleasing : pc.Leasing) :
    p.KeepsOwned q ∧ ∀ pc', (progress.leaves ⟨none, none⟩).pc = some pc' → pc'.Leasing := by
  cases pc with
  | lookup core access =>
      simp only [Process.exec] at h
      split at h
      · cases h
      · cases h
        refine ⟨.refl p, ?_⟩
        rintro _ ⟨⟩
        exact hleasing
  | locked entry access =>
      simp only [Process.exec] at h
      split at h
      · cases h
      · next core hcore =>
        obtain ⟨core', haccess⟩ := Process.access_accesses hcore h
        have hbare := haccess.serves.bare_eq hleasing
        refine ⟨⟨haccess.cores, ?_, access_snapshots h hleasing, haccess.diffs, haccess.threads,
          ?_⟩, ?_⟩
        · rw [haccess.heap, List.map_set, hbare, ← List.map_set, heap_set_self hcore]
        · rw [haccess.nextHandle]
          split
          · exact .inr rfl
          · exact .inl rfl
        · rintro pc' hpc'
          cases haccess.serves with
          | setEpoch _ | snapshot | submit _ => cases hleasing
          | register _ | metadataGet _ | transition _ | discard _ | remove => cases hpc'
          | checkAcquire _ | checkSubmit _ | retire _ =>
              cases hpc'
              trivial
  | allocateCore _ | insertCore _ _ | destroy _ | allocateDiff _ _ | insertDiff _ _ _
  | snapshotRetain _ | snapshotRelease _ | snapshotMetadataGet _ _ | diffRetain _ | diffRelease _
  | diffMetadataGet _ _ => cases hleasing

omit [Sha256] in
theorem Progress.pc_leaves (progress : Progress) (self : Thread) :
    (progress.leaves self).pc = (progress.leaves ⟨none, none⟩).pc := by
  cases progress <;> rfl

omit [Sha256] in
/-- Another thread has moved on. -/
theorem Process.Owns.setThread (h : p.Owns thread pc lib) (hkeeps : p.KeepsOwned q)
    (hroom : p.Room) (hne : other ≠ thread) {state : Thread}
    (hstate : ∀ pc', state.pc = some pc' → pc'.Leasing) :
    (q.setThread other state).Owns thread pc lib where
  stands := by
    simp only [Process.setThread, hkeeps.threads, Function.update_of_ne hne.symm]
    exact h.stands
  others third pc' hthird hpc' := by
    simp only [Process.setThread, hkeeps.threads] at hpc'
    by_cases hother : third = other
    · subst hother
      rw [Function.update_self] at hpc'
      exact hstate pc' hpc'
    · rw [Function.update_of_ne hother] at hpc'
      exact h.others hthird hpc'
  shows :=
    have hshows := h.shows.keeps hkeeps hroom
    { hshows with }

/-- **Other threads** leave alone what the owner sees. -/
theorem Process.Owns.interferes (h : p.Owns thread pc lib) (hroom : p.Room) {label : Label}
    (hleases : label.action.leases thread) (hstep : p.Step label q) :
    q.Owns thread pc lib ∧ q.cores = p.cores ∧ p.nextHandle ≤ q.nextHandle := by
  obtain ⟨action, returned⟩ := label
  cases action with
  | begin other call =>
      obtain ⟨hne, hcall⟩ := by simpa [Action.leases] using hleases
      cases hstep.takes with
      | reject _ _ => exact ⟨h, rfl, UInt64.le_refl _⟩
      | start _ hstart =>
          refine ⟨h.setThread (.refl p) hroom hne ?_, rfl, UInt64.le_refl _⟩
          rintro _ ⟨⟩
          exact Call.leasing_of_start hcall hstart
  | advance other =>
      have hne : other ≠ thread := by simpa [Action.leases] using hleases
      obtain ⟨found, hfound⟩ := Process.Step.pc hstep
      have hleasing := h.others hne hfound
      obtain ⟨error, -, -, rfl⟩ | ⟨q, progress, hexec, -, rfl⟩ := Process.Step.exec hstep hfound
      · exact ⟨h.setThread (.refl p) hroom hne nofun, rfl, UInt64.le_refl _⟩
      · obtain ⟨hkeeps, hcontinues⟩ := Process.exec_leasing hexec hleasing
        refine ⟨h.setThread hkeeps hroom hne ?_, hkeeps.cores, hkeeps.le hroom⟩
        rw [Progress.pc_leaves]
        exact hcontinues
  | endCallback other =>
      have hne : other ≠ thread := by simpa [Action.leases] using hleases
      cases hstep.takes with
      | endCallback _ => exact ⟨h.setThread (.refl p) hroom hne nofun, rfl, UInt64.le_refl _⟩

/-! ## the tables of the owner's own steps -/

omit [Sha256] in
theorem Process.Shows.bump (h : p.Shows thread lib) (hroom : p.Room) : p.bump.Shows thread lib where
  cores := h.cores
  owner := h.owner
  placed := h.placed
  apart := h.apart
  snapshots := h.snapshots
  diffs := h.diffs
  positive := UInt64.lt_trans h.positive hroom
  unused _ hle := h.unused (UInt64.le_of_lt (hroom.lt_iff.mp hle))

omit [Sha256] in
/-- The next handle is not in use. -/
theorem Process.Shows.fresh (h : p.Shows thread lib) (hroom : p.Room) :
    lib.Unused p.freshHandle ∧ p.freshHandle < p.bump.nextHandle := by
  have hfresh : p.freshHandle = p.nextHandle := by
    change (if p.nextHandle ≤ 1 then 1 else p.nextHandle) = p.nextHandle
    split
    · next hle =>
      have hpositive : (0 : UInt64).toNat < p.nextHandle.toNat := h.positive
      have hle : p.nextHandle.toNat ≤ (1 : UInt64).toNat := hle
      exact UInt64.toNat_inj.mp (by simp at hpositive hle ⊢; omega)
    · rfl
  rw [hfresh]
  exact ⟨h.unused (UInt64.le_refl _), hroom⟩

omit [Sha256] in
theorem Process.Shows.core_eq (h : p.Shows thread lib) (hbound : p.cores[handle]? = some entry)
    (hcore : p.heap[entry]? = some core) : lib.cores[handle]? = some core.bare := by
  rw [← h.cores, Process.core?, hbound, Option.bind_some, hcore, Option.map_some]

omit [Sha256] in
/-- A core of the library is in the registry. -/
theorem Process.Shows.exists_core (h : p.Shows thread lib) {found : CoreState}
    (hfound : lib.cores[handle]? = some found) : ∃ entry core,
      p.cores[handle]? = some entry ∧ p.heap[entry]? = some core ∧ core.bare = found := by
  rw [← h.cores, Process.core?, Option.map_eq_some_iff] at hfound
  obtain ⟨core, hcore, rfl⟩ := hfound
  obtain ⟨entry, hbound, hcore⟩ := Option.bind_eq_some_iff.mp hcore
  exact ⟨entry, core, hbound, hcore, rfl⟩

omit [Sha256] in
/-- A core that the library does not have is not in the registry. -/
theorem Process.Shows.cores_eq_none (h : p.Shows thread lib) (hnone : handle ∉ lib.cores) :
    p.cores[handle]? = none := by
  cases hbound : p.cores[handle]? with
  | none => rfl
  | some entry =>
      have hfound := h.core_eq hbound (List.getElem?_eq_getElem (h.placed hbound))
      exact absurd (Table.mem_iff_exists.mpr ⟨_, hfound⟩) hnone

omit [Sha256] in
/-- The core of the handle has changed. -/
theorem Process.Shows.setCore (h : p.Shows thread lib) (hbound : p.cores[handle]? = some entry)
    (howner : core'.owner = thread) :
    (p.setCore entry core').Shows thread
      { lib with cores := lib.cores.insert handle core'.bare } where
  cores other := by
    rw [core?_of_set (p := p) (q := p.setCore entry core') rfl rfl (h.placed hbound) other,
      Table.getElem?_insert_eq, ← h.cores]
    by_cases hother : other = handle
    · subst hother
      simp only [hbound, if_true, Option.map_some]
    · have hne : p.cores[other]? ≠ some entry := fun hsame => hother (h.apart hsame hbound)
      rw [if_neg hne, if_neg hother]
  owner other found hfound := by
    obtain ⟨-, rfl⟩ | ⟨-, hfound⟩ := Table.getElem?_insert_eq_some_iff.mp hfound
    · exact howner
    · exact h.owner hfound
  placed other found hfound := by
    simp only [Process.setCore, List.length_set]
    exact h.placed hfound
  apart := h.apart
  snapshots := h.snapshots
  diffs := h.diffs
  positive := h.positive
  unused other hle := by
    refine ⟨?_, (h.unused hle).snapshot, (h.unused hle).diff⟩
    intro hmem
    obtain ⟨found, hfound⟩ := Table.mem_iff_exists.mp hmem
    obtain ⟨rfl, -⟩ | ⟨-, hfound⟩ := Table.getElem?_insert_eq_some_iff.mp hfound
    · have hnone := h.cores_eq_none (h.unused hle).core
      rw [hbound] at hnone
      cases hnone
    · exact (h.unused hle).core (Table.mem_iff_exists.mpr ⟨found, hfound⟩)

omit [Sha256] in
/-- A new core under a handle that is not in use. -/
theorem Process.Shows.insertCore (h : p.Shows thread lib) (hunused : lib.Unused handle)
    (hlt : handle < p.nextHandle) (epoch : UInt64) :
    ({ p with
      cores := p.cores.insert handle p.heap.length
      heap := p.heap ++ [⟨.default, epoch, ∅, thread⟩] } : Process).Shows thread
        { lib with cores := lib.cores.insert handle ⟨.default, epoch, ∅, thread⟩ } where
  cores other := by
    rw [Table.getElem?_insert_eq, ← h.cores]
    simp only [Process.core?, Table.getElem?_insert_eq]
    by_cases hother : other = handle
    · simp [hother, CoreState.bare]
    · rw [if_neg hother, if_neg hother]
      congr 1
      refine Option.bind_congr fun entry hbound => ?_
      exact List.getElem?_append_left (h.placed hbound)
  owner other found hfound := by
    obtain ⟨-, rfl⟩ | ⟨-, hfound⟩ := Table.getElem?_insert_eq_some_iff.mp hfound
    · rfl
    · exact h.owner hfound
  placed other entry hbound := by
    rw [List.length_append, List.length_singleton]
    obtain ⟨-, rfl⟩ | ⟨-, hbound⟩ := Table.getElem?_insert_eq_some_iff.mp hbound
    · exact Nat.lt_succ_self _
    · exact Nat.lt_succ_of_lt (h.placed hbound)
  apart one other entry hone hother := by
    obtain ⟨rfl, rfl⟩ | ⟨-, hone⟩ := Table.getElem?_insert_eq_some_iff.mp hone
    · obtain ⟨rfl, -⟩ | ⟨-, hother⟩ := Table.getElem?_insert_eq_some_iff.mp hother
      · rfl
      · exact absurd (h.placed hother) (Nat.lt_irrefl _)
    · obtain ⟨-, rfl⟩ | ⟨-, hother⟩ := Table.getElem?_insert_eq_some_iff.mp hother
      · exact absurd (h.placed hone) (Nat.lt_irrefl _)
      · exact h.apart hone hother
  snapshots := h.snapshots
  diffs := h.diffs
  positive := h.positive
  unused other hle := by
    refine ⟨?_, (h.unused hle).snapshot, (h.unused hle).diff⟩
    intro hmem
    obtain ⟨found, hfound⟩ := Table.mem_iff_exists.mp hmem
    obtain ⟨rfl, -⟩ | ⟨-, hfound⟩ := Table.getElem?_insert_eq_some_iff.mp hfound
    · exact absurd hlt (UInt64.not_lt.mpr hle)
    · exact (h.unused hle).core (Table.mem_iff_exists.mpr ⟨found, hfound⟩)

omit [Sha256] in
theorem Process.Shows.eraseCore (h : p.Shows thread lib) (handle : UInt64) :
    ({ p with cores := p.cores.erase handle } : Process).Shows thread
      { lib with cores := lib.cores.erase handle } where
  cores other := by
    rw [Table.getElem?_erase_eq, ← h.cores]
    simp only [Process.core?, Table.getElem?_erase_eq]
    split <;> rfl
  owner other found hfound := h.owner (Table.getElem?_erase_eq_some_iff.mp hfound).2
  placed other entry hbound := h.placed (Table.getElem?_erase_eq_some_iff.mp hbound).2
  apart one other entry hone hother :=
    h.apart (Table.getElem?_erase_eq_some_iff.mp hone).2
      (Table.getElem?_erase_eq_some_iff.mp hother).2
  snapshots := h.snapshots
  diffs := h.diffs
  positive := h.positive
  unused other hle := by
    refine ⟨fun hmem => ?_, (h.unused hle).snapshot, (h.unused hle).diff⟩
    exact (h.unused hle).core (Std.ExtTreeMap.mem_of_mem_erase hmem)

omit [Sha256] in
/-- The table of snapshots has changed, below the counter. -/
theorem Process.Shows.setSnapshots (h : p.Shows thread lib)
    {snapshots : OrdMap UInt64 (RefHandle StitchSnapshotMetadata)}
    (hbelow : ∀ handle ∈ snapshots, handle ∈ lib.snapshots ∨ handle < p.nextHandle) :
    ({ p with snapshots := snapshots } : Process).Shows thread
      { lib with snapshots := snapshots } :=
  { h with
    snapshots := rfl
    unused := fun other hle => by
      refine ⟨(h.unused hle).core, fun hmem => ?_, (h.unused hle).diff⟩
      obtain hmem | hlt := hbelow other hmem
      · exact (h.unused hle).snapshot hmem
      · exact absurd hlt (UInt64.not_lt.mpr hle) }

omit [Sha256] in
/-- The table of diffs has changed, below the counter. -/
theorem Process.Shows.setDiffs (h : p.Shows thread lib)
    {diffs : OrdMap UInt64 (RefHandle StitchDiffMetadata)}
    (hbelow : ∀ handle ∈ diffs, handle ∈ lib.diffs ∨ handle < p.nextHandle) :
    ({ p with diffs := diffs } : Process).Shows thread { lib with diffs := diffs } :=
  { h with
    diffs := rfl
    unused := fun other hle => by
      refine ⟨(h.unused hle).core, (h.unused hle).snapshot, fun hmem => ?_⟩
      obtain hmem | hlt := hbelow other hmem
      · exact (h.unused hle).diff hmem
      · exact absurd hlt (UInt64.not_lt.mpr hle) }

omit [Sha256] in
/-- An entry is added under a handle below the counter. -/
theorem below_insert {α : Type} {entries : OrdMap UInt64 α} {next : UInt64} (entry : α)
    (hlt : handle < next) :
    ∀ other ∈ entries.insert handle entry, other ∈ entries ∨ other < next := by
  intro other hmem
  obtain ⟨found, hfound⟩ := Table.mem_iff_exists.mp hmem
  obtain ⟨rfl, -⟩ | ⟨-, hfound⟩ := Table.getElem?_insert_eq_some_iff.mp hfound
  · exact .inr hlt
  · exact .inl (Table.mem_iff_exists.mpr ⟨found, hfound⟩)

omit [Sha256] in
theorem Process.Shows.setCallback (h : p.Shows thread lib) (callback : Option UInt64) :
    p.Shows thread { lib with callback := callback } :=
  { h with unused := fun _ hle =>
      ⟨(h.unused hle).core, (h.unused hle).snapshot, (h.unused hle).diff⟩ }

omit [Sha256] in
theorem mem_of_release {α : Type} {entries entries' : OrdMap UInt64 (RefHandle α)}
    (h : release entries handle = .ok entries') {other : UInt64} (hmem : other ∈ entries') :
    other ∈ entries := by
  obtain ⟨entry, hentry⟩ := Table.mem_iff_exists.mp hmem
  obtain ⟨found, hfound, -⟩ := valuesOf_release h hentry
  exact Table.mem_iff_exists.mpr ⟨found, hfound⟩

end Threads

end StitchEditor.Abi
