import Mathlib
import StitchEditor.Lib.Fallible
import StitchEditor.Abi.Calls

/-!
# StitchEditor.Abi.Sections

What a section of a call does when it succeeds, one case for each section.

`CoreState.Serves` says it of one core, `Process.Executes` of the process,
and `Process.Takes` of a step with the result that the caller sees.  What
holds along runs is proved from these cases.
-/

namespace StitchEditor.Abi

open StitchEditor Fallible

/-! ## counted handles -/

/-- Every handle of the first table stands in the second for the same
value. -/
def ValuesOf {α : Type} (entries entries' : OrdMap UInt64 (RefHandle α)) : Prop :=
  ∀ ⦃handle : UInt64⦄ ⦃entry : RefHandle α⦄, entries[handle]? = some entry →
    ∃ entry', entries'[handle]? = some entry' ∧ entry'.value = entry.value

section ValuesOf

variable {α : Type} {entries entries' : OrdMap UInt64 (RefHandle α)} {handle : UInt64}

theorem ValuesOf.refl : ValuesOf entries entries := fun _ entry hentry => ⟨entry, hentry, rfl⟩

theorem ValuesOf.insert {found entry : RefHandle α} (hfound : entries[handle]? = some found)
    (hvalue : entry.value = found.value) : ValuesOf (entries.insert handle entry) entries := by
  intro other entry' hentry'
  rcases Table.getElem?_insert_eq_some_iff.mp hentry' with ⟨rfl, rfl⟩ | ⟨-, hentry'⟩
  · exact ⟨found, hfound, hvalue.symm⟩
  · exact ⟨entry', hentry', rfl⟩

theorem ValuesOf.erase : ValuesOf (entries.erase handle) entries := by
  intro other entry' hentry'
  exact ⟨entry', (Table.getElem?_erase_eq_some_iff.mp hentry').2, rfl⟩

theorem valuesOf_retain (h : retain entries handle = .ok entries') : ValuesOf entries' entries := by
  unfold retain at h
  split at h
  · cases h
  · next found hfound =>
    obtain ⟨-, rfl⟩ := ite_ok_eq_ok_iff.mp h
    exact .insert hfound rfl

theorem valuesOf_release (h : release entries handle = .ok entries') :
    ValuesOf entries' entries := by
  unfold release at h
  split at h
  · cases h
  · next found hfound =>
    split at h <;> cases h
    · exact .erase
    · exact .insert hfound rfl

end ValuesOf

section Sections

variable [Sha256]

/-! ## one core -/

/-- What an access of the thread makes of the core, and how its call goes
on; `fresh` is the next handle. -/
inductive CoreState.Serves (core : CoreState) (thread : ThreadId) (fresh : UInt64) :
    Access → CoreState → Progress → Prop where
  | setEpoch {epoch : UInt64} {core' : CoreState} (h : core.setEpoch thread epoch = .ok core') :
      Serves core thread fresh (.setEpoch epoch) core' (.finished .ok .none)
  | snapshot : Serves core thread fresh .snapshot core (.finished .ok (.handle fresh))
  | submit {batch : StitchCommandBatch} {callback : Bool} {core' : CoreState}
      {metadata : StitchDiffMetadata} (h : core.submit thread batch = .ok (core', metadata)) :
      Serves core thread fresh (.submit batch callback) core'
        (.continues (.allocateDiff metadata callback))
  | register {metadata : StitchFrameMetadata} (h : core.checkRegister metadata = .ok ()) :
      Serves core thread fresh (.register metadata) (core.insertLease thread fresh metadata)
        (.finished .ok (.handle fresh))
  | metadataGet {id : UInt64} {out : Bool} {lease : Lease} (h : core.leases[id]? = some lease) :
      Serves core thread fresh (.metadataGet id out) core
        (.finished .ok (.frameMetadata lease.metadata))
  | checkAcquire {handle id device epoch : UInt64} {revision : StitchDigest}
      (h : core.checkAcquire epoch revision = .ok ()) :
      Serves core thread fresh (.checkAcquire handle id device epoch revision) core
        (.continues (.lookup handle (.transition id device .registered .acquired none)))
  | checkSubmit {handle id device : UInt64} (h : core.checkSubmit id = .ok ()) :
      Serves core thread fresh (.checkSubmit handle id device) core
        (.continues (.lookup handle (.transition id device .acquired .submitted none)))
  | transition {id device : UInt64} {expected next : LeaseState} {core' : CoreState}
      (h : core.leaseTransition thread id device expected next = .ok core') :
      Serves core thread fresh (.transition id device expected next none) core'
        (.finished .ok .none)
  | retire {handle id device : UInt64} {expected next : LeaseState} {core' : CoreState}
      (h : core.leaseTransition thread id device expected next = .ok core') :
      Serves core thread fresh (.transition id device expected next (some handle)) core'
        (.continues (.lookup handle (.remove id)))
  | discard {id device : UInt64} {core' : CoreState}
      (h : core.discard thread id device = .ok core') :
      Serves core thread fresh (.discard id device) core' (.finished .ok .none)
  | remove {id : UInt64} :
      Serves core thread fresh (.remove id) (core.removeLease id) (.finished .ok .none)

/-- The access takes a handle from the counter. -/
def Access.allocates : Access → Bool
  | .snapshot => true
  | .register _ => true
  | _ => false

/-! ## the process -/

variable {p q : Process} {thread : ThreadId}

/-- What a section under the lock of a core leaves as it was, and what it
does to the core. -/
structure Process.Accesses (p : Process) (thread : ThreadId) (entry : Nat) (core : CoreState)
    (access : Access) (q : Process) (progress : Progress) (core' : CoreState) : Prop where
  serves : core.Serves thread p.freshHandle access core' progress
  heap : q.heap = p.heap.set entry core'
  cores : q.cores = p.cores
  diffs : q.diffs = p.diffs
  threads : q.threads = p.threads
  nextHandle : q.nextHandle = if access.allocates then p.nextHandle + 1 else p.nextHandle

omit [Sha256] in
theorem Process.heap_set_self {entry : Nat} {core : CoreState}
    (hcore : p.heap[entry]? = some core) :
    p.heap.set entry core = p.heap := by
  obtain ⟨hlt, rfl⟩ := List.getElem?_eq_some_iff.mp hcore
  exact List.set_getElem_self hlt

theorem Process.access_accesses {entry : Nat} {core : CoreState} {access : Access}
    {progress : Progress} (hcore : p.heap[entry]? = some core)
    (h : p.access thread entry core access = .ok (q, progress)) :
    ∃ core', p.Accesses thread entry core access q progress core' := by
  have hsame := (Process.heap_set_self hcore).symm
  cases access with
  | setEpoch epoch =>
      simp only [Process.access, bind_eq_ok_iff, pure_eq_ok_iff, Prod.mk.injEq] at h
      obtain ⟨core', hset, rfl, rfl⟩ := h
      exact ⟨core', .setEpoch hset, rfl, rfl, rfl, rfl, rfl⟩
  | snapshot =>
      simp only [Process.access, pure_eq_ok_iff, Prod.mk.injEq] at h
      obtain ⟨rfl, rfl⟩ := h
      exact ⟨core, .snapshot, hsame, rfl, rfl, rfl, rfl⟩
  | submit batch callback =>
      simp only [Process.access, bind_eq_ok_iff, pure_eq_ok_iff, Prod.mk.injEq] at h
      obtain ⟨⟨core', metadata⟩, hsubmit, rfl, rfl⟩ := h
      exact ⟨core', .submit hsubmit, rfl, rfl, rfl, rfl, rfl⟩
  | register metadata =>
      simp only [Process.access, bind_eq_ok_iff, pure_eq_ok_iff, Prod.mk.injEq] at h
      obtain ⟨_, hcheck, rfl, rfl⟩ := h
      exact ⟨_, .register hcheck, rfl, rfl, rfl, rfl, rfl⟩
  | metadataGet id out =>
      simp only [Process.access] at h
      split at h
      · cases h
      · next lease hlease =>
        simp only [bind_eq_ok_iff, pure_eq_ok_iff, Prod.mk.injEq] at h
        obtain ⟨_, -, rfl, rfl⟩ := h
        exact ⟨core, .metadataGet hlease, hsame, rfl, rfl, rfl, rfl⟩
  | checkAcquire handle id device epoch revision =>
      simp only [Process.access, bind_eq_ok_iff, pure_eq_ok_iff, Prod.mk.injEq] at h
      obtain ⟨_, hcheck, rfl, rfl⟩ := h
      exact ⟨core, .checkAcquire hcheck, hsame, rfl, rfl, rfl, rfl⟩
  | checkSubmit handle id device =>
      simp only [Process.access, bind_eq_ok_iff, pure_eq_ok_iff, Prod.mk.injEq] at h
      obtain ⟨_, hcheck, rfl, rfl⟩ := h
      exact ⟨core, .checkSubmit hcheck, hsame, rfl, rfl, rfl, rfl⟩
  | transition id device expected next retire =>
      simp only [Process.access, bind_eq_ok_iff, pure_eq_ok_iff, Prod.mk.injEq] at h
      obtain ⟨core', htransition, rfl, rfl⟩ := h
      cases retire with
      | none => exact ⟨core', .transition htransition, rfl, rfl, rfl, rfl, rfl⟩
      | some handle => exact ⟨core', .retire htransition, rfl, rfl, rfl, rfl, rfl⟩
  | discard id device =>
      simp only [Process.access, bind_eq_ok_iff, pure_eq_ok_iff, Prod.mk.injEq] at h
      obtain ⟨core', hdiscard, rfl, rfl⟩ := h
      exact ⟨core', .discard hdiscard, rfl, rfl, rfl, rfl, rfl⟩
  | remove id =>
      simp only [Process.access, pure_eq_ok_iff, Prod.mk.injEq] at h
      obtain ⟨rfl, rfl⟩ := h
      exact ⟨_, .remove, rfl, rfl, rfl, rfl, rfl⟩

/-- The section works on the tables of snapshots and diffs only. -/
def Pc.onTables : Pc → Bool
  | .snapshotRetain _ => true
  | .snapshotRelease _ => true
  | .snapshotMetadataGet _ _ => true
  | .diffRetain _ => true
  | .diffRelease _ => true
  | .diffMetadataGet _ _ => true
  | _ => false

/-- A successful section of the thread. -/
inductive Process.Executes (p : Process) (thread : ThreadId) : Pc → Process → Progress → Prop where
  | allocateCore {epoch : UInt64} : Executes p thread (.allocateCore epoch) p.bump
      (.continues (.insertCore p.freshHandle epoch))
  | insertCore {handle epoch : UInt64} : Executes p thread (.insertCore handle epoch)
      { p with
        cores := p.cores.insert handle p.heap.length
        heap := p.heap ++ [⟨.default, epoch, ∅, thread⟩] } (.finished .ok (.handle handle))
  | destroy {handle : UInt64} {entry : Nat} {core : CoreState}
      (hbound : p.cores[handle]? = some entry) (hcore : p.heap[entry]? = some core)
      (howner : core.owner = thread) (hleases : core.leases = ∅) :
      Executes p thread (.destroy handle) { p with cores := p.cores.erase handle }
        (.finished .ok .none)
  | lookup {handle : UInt64} {access : Access} {entry : Nat}
      (hbound : p.cores[handle]? = some entry) :
      Executes p thread (.lookup handle access) p (.continues (.locked entry access))
  | locked {entry : Nat} {access : Access} {core core' : CoreState} {q : Process}
      {progress : Progress} (hcore : p.heap[entry]? = some core)
      (haccess : p.Accesses thread entry core access q progress core') :
      Executes p thread (.locked entry access) q progress
  | allocateDiff {metadata : StitchDiffMetadata} {callback : Bool} :
      Executes p thread (.allocateDiff metadata callback) p.bump
        (.continues (.insertDiff p.freshHandle metadata callback))
  | insertDiff {handle : UInt64} {metadata : StitchDiffMetadata} {callback : Bool}
      {progress : Progress}
      (h : progress = if callback then .callback handle else .finished .ok (.handle handle)) :
      Executes p thread (.insertDiff handle metadata callback)
        { p with diffs := p.diffs.insert handle ⟨metadata, 1⟩ } progress
  | counted {pc : Pc} {snapshots : OrdMap UInt64 (RefHandle StitchSnapshotMetadata)}
      {diffs : OrdMap UInt64 (RefHandle StitchDiffMetadata)} {output : Output}
      (htables : pc.onTables) (hdiffs : ValuesOf diffs p.diffs) :
      Executes p thread pc { p with snapshots := snapshots, diffs := diffs } (.finished .ok output)

omit [Sha256] in
theorem Process.destroy_eq_ok {handle : UInt64} (h : p.destroy thread handle = .ok q) :
    ∃ entry core, p.cores[handle]? = some entry ∧ p.heap[entry]? = some core ∧
      core.owner = thread ∧ core.leases = ∅ ∧ q = { p with cores := p.cores.erase handle } := by
  unfold Process.destroy at h
  split at h
  · cases h
  · next core hfound =>
    simp only [Option.bind_eq_some_iff] at hfound
    obtain ⟨entry, hbound, hcore⟩ := hfound
    simp only [bind_eq_ok_iff, refuse_eq_ok_iff, pure_eq_ok_iff, not_not, exists_const] at h
    obtain ⟨howner, hleases, rfl⟩ := h
    exact ⟨entry, core, hbound, hcore, howner, hleases, rfl⟩

theorem Process.exec_executes {pc : Pc} {progress : Progress}
    (h : p.exec thread pc = .ok (q, progress)) : p.Executes thread pc q progress := by
  cases pc with
  | allocateCore epoch =>
      cases h
      exact .allocateCore
  | insertCore handle epoch =>
      cases h
      exact .insertCore
  | destroy handle =>
      simp only [Process.exec, bind_eq_ok_iff, pure_eq_ok_iff, Prod.mk.injEq] at h
      obtain ⟨_, hdestroy, rfl, rfl⟩ := h
      obtain ⟨entry, core, hbound, hcore, howner, hleases, rfl⟩ := Process.destroy_eq_ok hdestroy
      exact .destroy hbound hcore howner hleases
  | lookup handle access =>
      simp only [Process.exec] at h
      split at h
      · cases h
      · next entry hbound =>
        cases h
        exact .lookup hbound
  | locked entry access =>
      simp only [Process.exec] at h
      split at h
      · cases h
      · next core hcore =>
        obtain ⟨core', haccess⟩ := Process.access_accesses hcore h
        exact .locked hcore haccess
  | allocateDiff metadata callback =>
      cases h
      exact .allocateDiff
  | insertDiff handle metadata callback =>
      cases h
      exact .insertDiff rfl
  | snapshotRetain handle | snapshotRelease handle | snapshotMetadataGet handle out
  | diffMetadataGet handle out =>
      simp only [Process.exec, bind_eq_ok_iff, pure_eq_ok_iff, Prod.mk.injEq] at h
      obtain ⟨_, -, rfl, rfl⟩ := h
      exact .counted rfl .refl
  | diffRetain handle =>
      simp only [Process.exec, bind_eq_ok_iff, pure_eq_ok_iff, Prod.mk.injEq] at h
      obtain ⟨_, hretain, rfl, rfl⟩ := h
      exact .counted rfl (valuesOf_retain hretain)
  | diffRelease handle =>
      simp only [Process.exec, bind_eq_ok_iff, pure_eq_ok_iff, Prod.mk.injEq] at h
      obtain ⟨_, hrelease, rfl, rfl⟩ := h
      exact .counted rfl (valuesOf_release hrelease)

/-! ## steps -/

/-- What the caller sees of a section. -/
def Progress.returned : Progress → Option (StitchResult × Output)
  | .finished result output => some (result, output)
  | .continues _ => none
  | .callback _ => none

/-- Where a section leaves its thread. -/
def Progress.leaves (progress : Progress) (self : Thread) : Thread :=
  match progress with
  | .finished _ _ => { self with pc := none }
  | .continues pc => { self with pc := some pc }
  | .callback diff => ⟨some diff, none⟩

theorem Process.Step.pc {p' : Process} {returned : Option (StitchResult × Output)}
    (hstep : p.Step ⟨.advance thread, returned⟩ p') : ∃ pc, (p.threads thread).pc = some pc := by
  cases hpc : (p.threads thread).pc with
  | none => simp [Process.Step, Process.step, hpc] at hstep
  | some pc => exact ⟨pc, rfl⟩

/-- What a step of a thread in a call is: its section fails or succeeds. -/
theorem Process.Step.exec {p' : Process} {returned : Option (StitchResult × Output)} {pc : Pc}
    (hstep : p.Step ⟨.advance thread, returned⟩ p') (hpc : (p.threads thread).pc = some pc) :
    (∃ error, p.exec thread pc = .error error ∧ returned = some (error, .none) ∧
      p' = p.setThread thread { p.threads thread with pc := none }) ∨
    ∃ q progress, p.exec thread pc = .ok (q, progress) ∧ returned = progress.returned ∧
      p' = q.setThread thread (progress.leaves (p.threads thread)) := by
  simp only [Process.Step, Process.step, hpc] at hstep
  cases hexec : p.exec thread pc with
  | error error =>
      rw [hexec] at hstep
      cases hstep
      exact .inl ⟨error, rfl, rfl, rfl⟩
  | ok ended =>
      obtain ⟨q, progress⟩ := ended
      rw [hexec] at hstep
      right
      cases progress <;> cases hstep <;> exact ⟨_, _, rfl, rfl, rfl⟩

/-- A section that succeeds is a step of its thread. -/
theorem Process.Step.of_exec {pc : Pc} {progress : Progress}
    (hpc : (p.threads thread).pc = some pc) (hexec : p.exec thread pc = .ok (q, progress)) :
    p.Step ⟨.advance thread, progress.returned⟩
      (q.setThread thread (progress.leaves (p.threads thread))) := by
  simp only [Process.Step, Process.step, hpc, hexec]
  cases progress <;> rfl

/-- A step, by what it is. -/
inductive Process.Takes (p : Process) : Label → Process → Prop where
  /-- A call fails on its arguments. -/
  | reject {thread : ThreadId} {call : Call} {error : StitchResult}
      (hpc : (p.threads thread).pc = none)
      (h : call.start (p.threads thread).callback.isSome = .error error) :
      Takes p ⟨.begin thread call, some (error, .none)⟩ p
  | start {thread : ThreadId} {call : Call} {pc : Pc} (hpc : (p.threads thread).pc = none)
      (h : call.start (p.threads thread).callback.isSome = .ok pc) :
      Takes p ⟨.begin thread call, none⟩
        (p.setThread thread { p.threads thread with pc := some pc })
  | fail {thread : ThreadId} {pc : Pc} {error : StitchResult}
      (hpc : (p.threads thread).pc = some pc) (h : p.exec thread pc = .error error) :
      Takes p ⟨.advance thread, some (error, .none)⟩
        (p.setThread thread { p.threads thread with pc := none })
  | run {thread : ThreadId} {pc : Pc} {q : Process} {progress : Progress}
      (hpc : (p.threads thread).pc = some pc) (h : p.Executes thread pc q progress) :
      Takes p ⟨.advance thread, progress.returned⟩
        (q.setThread thread (progress.leaves (p.threads thread)))
  | endCallback {thread : ThreadId} {diff : UInt64} (h : p.threads thread = ⟨some diff, none⟩) :
      Takes p ⟨.endCallback thread, some (.ok, .handle diff)⟩ (p.setThread thread ⟨none, none⟩)

theorem Process.Step.takes {p' : Process} {label : Label} (hstep : p.Step label p') :
    p.Takes label p' := by
  obtain ⟨action, returned⟩ := label
  cases action with
  | begin thread call =>
      simp only [Process.Step, Process.step] at hstep
      split at hstep
      · cases hstep
      · next hpc =>
        split at hstep
        · next hstart =>
          cases hstep
          exact .reject hpc hstart
        · next hstart =>
          cases hstep
          exact .start hpc hstart
  | advance thread =>
      obtain ⟨pc, hpc⟩ := Process.Step.pc hstep
      obtain ⟨error, hexec, rfl, rfl⟩ | ⟨q, progress, hexec, rfl, rfl⟩ :=
        Process.Step.exec hstep hpc
      · exact .fail hpc hexec
      · exact .run hpc (Process.exec_executes hexec)
  | endCallback thread =>
      simp only [Process.Step, Process.step] at hstep
      split at hstep
      · next hthread =>
        cases hstep
        exact .endCallback hthread
      · cases hstep

end Sections

end StitchEditor.Abi
