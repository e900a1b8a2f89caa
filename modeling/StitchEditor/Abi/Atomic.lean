import Mathlib
import StitchEditor.Lib.Client
import StitchEditor.Abi.Callers
import StitchEditor.Abi.Errors
import StitchEditor.Abi.Leases

/-!
# StitchEditor.Abi.Atomic

The frame-lease calls of one thread as atomic calls.

A lease call takes up to four sections, and between two of them other threads
may change the epoch and the revision of the core, so that the call fails.
The leases are not theirs to change: as long as they only edit and read, the
thread sees calls that are answered at once, by the leases of its core
(`leaseService_atomic`).  Of these a discard fails only where the lease is not
one to discard, and a reading only where there is none.
-/

namespace StitchEditor.Abi

open StitchEditor Client Fallible

/-! ## lease calls -/

/-- The frame-lease calls up to the submit of a caller whose pointers are all
there. -/
inductive LeaseCall where
  | register (metadata : StitchFrameMetadata)
  | acquire (lease device epoch : UInt64) (revision : StitchDigest)
  | metadataGet (lease : UInt64)
  | discard (lease device : UInt64)
  | submit (lease device : UInt64)
  deriving DecidableEq

/-- The call for the core of the handle. -/
def LeaseCall.call (handle : UInt64) : LeaseCall → Call
  | .register metadata => .frameLeaseRegister handle (some metadata) true
  | .acquire lease device epoch revision =>
      .frameLeaseAcquire handle lease device epoch (some revision)
  | .metadataGet lease => .frameLeaseMetadataGet handle lease true
  | .discard lease device => .frameLeaseDiscard handle lease device
  | .submit lease device => .frameLeaseSubmit handle lease device

/-- What the call does under the lock of the core. -/
inductive LeaseCall.Section (handle : UInt64) : LeaseCall → Access → Prop where
  | register {metadata : StitchFrameMetadata} : Section handle (.register metadata)
      (.register metadata)
  | checkAcquire {id device epoch : UInt64} {revision : StitchDigest} :
      Section handle (.acquire id device epoch revision)
        (.checkAcquire handle id device epoch revision)
  | acquire {id device epoch : UInt64} {revision : StitchDigest} :
      Section handle (.acquire id device epoch revision)
        (.transition id device .registered .acquired none)
  | metadataGet {id : UInt64} : Section handle (.metadataGet id) (.metadataGet id true)
  | discard {id device : UInt64} : Section handle (.discard id device) (.discard id device)
  | checkSubmit {id device : UInt64} :
      Section handle (.submit id device) (.checkSubmit handle id device)
  | submit {id device : UInt64} :
      Section handle (.submit id device) (.transition id device .acquired .submitted none)

/-- The lease is the thread's to discard. -/
def Discardable (leases : OrdMap UInt64 Lease) (thread : ThreadId) (id device : UInt64) : Prop :=
  ∃ lease, leases[id]? = some lease ∧ lease.metadata.deviceGeneration = device ∧
    lease.owner = thread ∧ (lease.state = .registered ∨ lease.state = .acquired)

/-- The leases alone decide about the call, and they let it pass. -/
def LeaseCall.Succeeds (thread : ThreadId) (leases : OrdMap UInt64 Lease) : LeaseCall → Prop
  | .metadataGet id => id ∈ leases
  | .discard id device => Discardable leases thread id device
  | _ => False

/-- What the leases of a core answer to a call of the thread, and what it makes
of them. -/
inductive LeaseCall.Served (thread : ThreadId) : OrdMap UInt64 Lease → LeaseCall →
    StitchResult × Output → OrdMap UInt64 Lease → Prop where
  | fails {leases : OrdMap UInt64 Lease} {call : LeaseCall} {error : StitchResult}
      (herror : error ≠ .ok) (hsucceeds : ¬ call.Succeeds thread leases) :
      Served thread leases call (error, .none) leases
  | registers {leases : OrdMap UInt64 Lease} {metadata : StitchFrameMetadata} {id : UInt64}
      (hid : id ≠ 0) :
      Served thread leases (.register metadata) (.ok, .handle id)
        (leases.insert id (metadata.lease thread id))
  | acquires {leases : OrdMap UInt64 Lease} {id device epoch : UInt64} {revision : StitchDigest}
      {lease : Lease} (hlease : leases[id]? = some lease) (howner : lease.owner = thread)
      (hdevice : lease.metadata.deviceGeneration = device) (hstate : lease.state = .registered) :
      Served thread leases (.acquire id device epoch revision) (.ok, .none)
        (leases.insert id (lease.inState .acquired))
  | reads {leases : OrdMap UInt64 Lease} {id : UInt64} {lease : Lease}
      (hlease : leases[id]? = some lease) :
      Served thread leases (.metadataGet id) (.ok, .frameMetadata lease.metadata) leases
  | discards {leases : OrdMap UInt64 Lease} {id device : UInt64}
      (hdiscardable : Discardable leases thread id device) :
      Served thread leases (.discard id device) (.ok, .none) (leases.erase id)
  | submits {leases : OrdMap UInt64 Lease} {id device : UInt64} {lease : Lease}
      (hlease : leases[id]? = some lease) (howner : lease.owner = thread)
      (hdevice : lease.metadata.deviceGeneration = device) (hstate : lease.state = .acquired) :
      Served thread leases (.submit id device) (.ok, .none)
        (leases.insert id (lease.inState .submitted))

namespace LeaseCall

variable {handle : UInt64} {call : LeaseCall} {thread : ThreadId} {leases : OrdMap UInt64 Lease}

/-- The call goes to the registry first. -/
theorem section_of_start {pc : Pc} (h : (call.call handle).start false = .ok pc) :
    ∃ access, pc = .lookup handle access ∧ call.Section handle access := by
  cases call with
  | register metadata =>
      simp only [LeaseCall.call, Call.start, input, bind_eq_ok_iff, pure_eq_ok_iff,
        Except.ok.injEq] at h
      obtain ⟨_, -, _, -, _, rfl, _, -, rfl⟩ := h
      exact ⟨_, rfl, .register⟩
  | acquire id device epoch revision =>
      cases h
      exact ⟨_, rfl, .checkAcquire⟩
  | metadataGet id =>
      cases h
      exact ⟨_, rfl, .metadataGet⟩
  | discard id device =>
      cases h
      exact ⟨_, rfl, .discard⟩
  | submit id device =>
      cases h
      exact ⟨_, rfl, .checkSubmit⟩

/-- A call that fails on its arguments is one that may fail. -/
theorem served_of_start {error : StitchResult}
    (h : (call.call handle).start false = .error error) :
    Served thread leases call (error, .none) leases := by
  refine .fails ((call.call handle).raises_start _ h).1 ?_
  cases call with
  | register metadata | acquire id device epoch revision | submit id device => exact not_false
  | metadataGet id | discard id device => cases h

end LeaseCall

section Sections

variable [Sha256] {handle : UInt64} {call : LeaseCall} {access : Access} {thread : ThreadId}
  {core core' : CoreState}

omit [Sha256] in
theorem Discardable.exists_discard {id device : UInt64}
    (h : Discardable core.leases thread id device) :
    ∃ core', core.discard thread id device = .ok core' := by
  obtain ⟨lease, hlease, hdevice, howner, hstate⟩ := h
  refine ⟨_, CoreState.discard_eq_ok_iff.mpr ⟨lease, ?_, hstate, rfl⟩⟩
  exact CoreState.ownedLease_eq_ok_iff.mpr ⟨hlease, hdevice, howner⟩

/-- A section that succeeds ends its call or leads to the next one. -/
theorem LeaseCall.Section.serves {fresh : UInt64} {progress : Progress}
    (hsection : call.Section handle access) (hfresh : fresh ≠ 0)
    (hserves : core.Serves thread fresh access core' progress) :
    (∃ result output, progress = .finished result output ∧
      Served thread core.leases call (result, output) core'.leases) ∨
    ∃ access', progress = .continues (.lookup handle access') ∧ call.Section handle access' ∧
      core'.leases = core.leases := by
  cases hsection with
  | register =>
      cases hserves with
      | register _ => exact .inl ⟨_, _, rfl, .registers hfresh⟩
  | checkAcquire =>
      cases hserves with
      | checkAcquire _ => exact .inr ⟨_, rfl, .acquire, rfl⟩
  | checkSubmit =>
      cases hserves with
      | checkSubmit _ => exact .inr ⟨_, rfl, .submit, rfl⟩
  | metadataGet =>
      cases hserves with
      | metadataGet hlease => exact .inl ⟨_, _, rfl, .reads hlease⟩
  | acquire =>
      cases hserves with
      | transition h =>
          obtain ⟨lease, howned, hstate, rfl⟩ := CoreState.leaseTransition_eq_ok_iff.mp h
          obtain ⟨hlease, hdevice, howner⟩ := CoreState.ownedLease_eq_ok_iff.mp howned
          exact .inl ⟨_, _, rfl, .acquires hlease howner hdevice hstate⟩
  | submit =>
      cases hserves with
      | transition h =>
          obtain ⟨lease, howned, hstate, rfl⟩ := CoreState.leaseTransition_eq_ok_iff.mp h
          obtain ⟨hlease, hdevice, howner⟩ := CoreState.ownedLease_eq_ok_iff.mp howned
          exact .inl ⟨_, _, rfl, .submits hlease howner hdevice hstate⟩
  | discard =>
      cases hserves with
      | discard h =>
          obtain ⟨lease, howned, hstate, rfl⟩ := CoreState.discard_eq_ok_iff.mp h
          obtain ⟨hlease, hdevice, howner⟩ := CoreState.ownedLease_eq_ok_iff.mp howned
          exact .inl ⟨_, _, rfl, .discards ⟨lease, hlease, hdevice, howner, hstate⟩⟩

/-- A section that fails is one that may fail. -/
theorem LeaseCall.Section.fails {p : Process} {entry : Nat} {error : StitchResult}
    (hsection : call.Section handle access) (hcore : p.heap[entry]? = some core)
    (hexec : p.exec thread (.locked entry access) = .error error) :
    Served thread core.leases call (error, .none) core.leases := by
  refine .fails (p.raises_exec thread _ _ hexec).1 ?_
  simp only [Process.exec, hcore] at hexec
  cases hsection with
  | register | checkAcquire | acquire | checkSubmit | submit => exact not_false
  | @metadataGet id =>
      intro hmem
      obtain ⟨lease, hlease⟩ := Table.mem_iff_exists.mp hmem
      simp only [Process.access, hlease] at hexec
      cases hexec
  | discard =>
      intro hdiscardable
      obtain ⟨core', hdiscard⟩ := hdiscardable.exists_discard
      simp only [Process.access, hdiscard] at hexec
      cases hexec

end Sections

/-! ## the other threads -/

/-- The section makes and ends no core, and moves no lease. -/
def Pc.Still : Pc → Prop
  | .allocateCore _ => False
  | .insertCore _ _ => False
  | .destroy _ => False
  | .lookup _ access => access.Still
  | .locked _ access => access.Still
  | _ => True

/-- The call edits a core, changes its epoch or reads. -/
def Call.edits : Call → Bool
  | .coreSetEpoch _ _ => true
  | .coreSnapshot _ _ => true
  | .coreSubmit _ _ _ _ => true
  | .snapshotRetain _ => true
  | .snapshotRelease _ => true
  | .snapshotMetadataGet _ _ => true
  | .diffRetain _ => true
  | .diffRelease _ => true
  | .diffMetadataGet _ _ => true
  | .frameLeaseMetadataGet _ _ _ => true
  | _ => false

/-- Another thread than this one acts, and the calls that it begins edit or
read. -/
def Action.edits (thread : ThreadId) : Action → Bool
  | .begin other call => other ≠ thread && call.edits
  | .advance other => other ≠ thread
  | .endCallback other => other ≠ thread

theorem Call.still_of_start {call : Call} {inCallback : Bool} {pc : Pc} (hedits : call.edits)
    (h : call.start inCallback = .ok pc) : pc.Still := by
  cases call with
  | coreSetEpoch core epoch =>
      simp only [Call.start, bind_eq_ok_iff, pure_eq_ok_iff] at h
      obtain ⟨_, -, rfl⟩ := h
      trivial
  | coreSnapshot core outSnapshot =>
      simp only [Call.start, bind_eq_ok_iff, pure_eq_ok_iff] at h
      obtain ⟨_, -, rfl⟩ := h
      trivial
  | coreSubmit core batch callback outDiff =>
      simp only [Call.start, bind_eq_ok_iff, pure_eq_ok_iff] at h
      obtain ⟨_, -, _, -, _, -, _, -, rfl⟩ := h
      trivial
  | snapshotRetain _ | snapshotRelease _ | snapshotMetadataGet _ _ | diffRetain _ | diffRelease _
  | diffMetadataGet _ _ | frameLeaseMetadataGet _ _ _ =>
      cases h
      trivial
  | coreCreate _ _ | coreDestroy _ | frameLeaseRegister _ _ _ | frameLeaseAcquire _ _ _ _ _
  | frameLeaseDiscard _ _ _ | frameLeaseSubmit _ _ _ | frameLeaseComplete _ _ _
  | frameLeaseRetire _ _ _ => cases hedits

section Threads

variable [Sha256] {p q : Process} {thread other : ThreadId} {handle : UInt64} {entry : Nat}
  {pc : Option Pc} {leases leases' : OrdMap UInt64 Lease}

/-- The registry stays, and so do the leases of all cores. -/
structure Process.KeepsLeases (p q : Process) : Prop where
  cores : q.cores = p.cores
  leases : ∀ ⦃entry : Nat⦄ ⦃core : CoreState⦄, p.heap[entry]? = some core →
    ∃ core' : CoreState, q.heap[entry]? = some core' ∧ core'.leases = core.leases

theorem CoreState.Serves.leases_eq {core core' : CoreState} {fresh : UInt64} {access : Access}
    {progress : Progress} (h : core.Serves other fresh access core' progress)
    (hstill : access.Still) : core'.leases = core.leases := by
  cases h with
  | setEpoch hset =>
      obtain ⟨-, -, rfl⟩ := setEpoch_eq_ok_iff.mp hset
      rfl
  | submit hsubmit =>
      obtain ⟨next, rfl⟩ := submit_eq_ok hsubmit
      rfl
  | snapshot | metadataGet _ => rfl
  | register _ | checkAcquire _ | checkSubmit _ | transition _ | retire _ | discard _ | remove =>
      cases hstill

/-- A still section keeps the leases, and leads to a still one. -/
theorem Process.Executes.still {pc : Pc} {progress : Progress} (h : p.Executes other pc q progress)
    (hstill : pc.Still) :
    p.KeepsLeases q ∧ ∀ pc', progress = .continues pc' → pc'.Still := by
  have hsame : ∀ {q : Process}, q.cores = p.cores → q.heap = p.heap → p.KeepsLeases q :=
    fun hcores hheap => ⟨hcores, fun _ core hcore => ⟨core, hheap ▸ hcore, rfl⟩⟩
  cases h with
  | allocateCore | insertCore | destroy _ _ _ _ => cases hstill
  | lookup _ =>
      refine ⟨hsame rfl rfl, ?_⟩
      rintro _ ⟨⟩
      exact hstill
  | allocateDiff =>
      refine ⟨hsame rfl rfl, ?_⟩
      rintro _ ⟨⟩
      trivial
  | insertDiff hprogress =>
      refine ⟨hsame rfl rfl, ?_⟩
      rintro pc' hcontinues
      rw [hcontinues] at hprogress
      split at hprogress <;> cases hprogress
  | counted _ _ => exact ⟨hsame rfl rfl, nofun⟩
  | @locked entry access core core' q progress hcore haccess =>
      have hleases := haccess.serves.leases_eq hstill
      refine ⟨⟨haccess.cores, fun place found hfound => ?_⟩, ?_⟩
      · rw [haccess.heap, List.getElem?_set]
        by_cases hplace : entry = place
        · subst hplace
          obtain rfl := Option.some.inj (hcore.symm.trans hfound)
          rw [if_pos rfl, if_pos (List.getElem?_eq_some_iff.mp hcore).1]
          exact ⟨core', rfl, hleases⟩
        · rw [if_neg hplace]
          exact ⟨found, hfound, rfl⟩
      · rintro pc' rfl
        cases haccess.serves with
        | submit _ => trivial
        | checkAcquire _ | checkSubmit _ | retire _ => cases hstill

/-- The handle stands for the core of the entry, which has the leases.  The
thread is about to run the section, outside a callback, and the others edit or
read. -/
structure Process.Hosts (p : Process) (thread : ThreadId) (handle : UInt64) (entry : Nat)
    (pc : Option Pc) (leases : OrdMap UInt64 Lease) : Prop where
  bound : p.cores[handle]? = some entry
  core : ∃ core, p.heap[entry]? = some core ∧ core.leases = leases
  stands : p.threads thread = ⟨none, pc⟩
  others : ∀ ⦃other pc⦄, other ≠ thread → (p.threads other).pc = some pc → pc.Still

omit [Sha256] in
/-- Another thread has moved on. -/
theorem Process.Hosts.setThread (h : p.Hosts thread handle entry pc leases)
    (hkeeps : p.KeepsLeases q) (hthreads : q.threads = p.threads) (hne : other ≠ thread)
    {state : Thread} (hstate : ∀ pc', state.pc = some pc' → pc'.Still) :
    (q.setThread other state).Hosts thread handle entry pc leases where
  bound := by
    change q.cores[handle]? = some entry
    rw [hkeeps.cores]
    exact h.bound
  core := by
    obtain ⟨core, hcore, rfl⟩ := h.core
    exact hkeeps.leases hcore
  stands := by
    simp only [Process.setThread, hthreads, Function.update_of_ne hne.symm]
    exact h.stands
  others third pc' hthird hpc' := by
    simp only [Process.setThread, hthreads] at hpc'
    by_cases hother : third = other
    · subst hother
      rw [Function.update_self] at hpc'
      exact hstate pc' hpc'
    · rw [Function.update_of_ne hother] at hpc'
      exact h.others hthird hpc'

/-- **Other threads** leave the leases and the thread alone. -/
theorem Process.Hosts.interferes (h : p.Hosts thread handle entry pc leases) {label : Label}
    (hedits : label.action.edits thread) (hstep : p.Step label q) :
    q.Hosts thread handle entry pc leases := by
  have hself : p.KeepsLeases p := ⟨rfl, fun _ core hcore => ⟨core, hcore, rfl⟩⟩
  cases hstep.takes with
  | reject _ _ => exact h
  | start _ hstart =>
      obtain ⟨hne, hedits⟩ := by simpa [Action.edits] using hedits
      refine h.setThread hself rfl hne ?_
      rintro _ ⟨⟩
      exact Call.still_of_start hedits hstart
  | fail _ _ =>
      have hne := by simpa [Action.edits] using hedits
      exact h.setThread hself rfl hne nofun
  | @run other pc' q progress hpc' hexecutes =>
      have hne : other ≠ thread := by simpa [Action.edits] using hedits
      obtain ⟨hkeeps, hcontinues⟩ := hexecutes.still (h.others hne hpc')
      refine h.setThread hkeeps hexecutes.threads hne fun next hnext => ?_
      cases progress with
      | finished _ _ | callback _ => cases hnext
      | continues pc'' =>
          cases hnext
          exact hcontinues _ rfl
  | endCallback _ =>
      have hne := by simpa [Action.edits] using hedits
      exact h.setThread hself rfl hne nofun

/-! ## the thread's own calls -/

omit [Sha256] in
/-- The thread has moved on, and perhaps moved a lease of its core. -/
theorem Process.Hosts.own (h : p.Hosts thread handle entry pc leases) {core core' : CoreState}
    (hcore : p.heap[entry]? = some core) (hheap : q.heap = p.heap.set entry core')
    (hcores : q.cores = p.cores) (hthreads : q.threads = p.threads) (next : Option Pc) :
    (q.setThread thread ⟨none, next⟩).Hosts thread handle entry next core'.leases where
  bound := by
    change q.cores[handle]? = some entry
    rw [hcores]
    exact h.bound
  core := by
    refine ⟨core', ?_, rfl⟩
    change q.heap[entry]? = some core'
    rw [hheap, List.getElem?_set_self (List.getElem?_eq_some_iff.mp hcore).1]
  stands := Function.update_self ..
  others other pc' hne hpc' := by
    simp only [Process.setThread, hthreads, Function.update_of_ne hne] at hpc'
    exact h.others hne hpc'

omit [Sha256] in
/-- The thread has moved on without its core. -/
theorem Process.Hosts.goes (h : p.Hosts thread handle entry pc leases) (next : Option Pc) :
    (p.setThread thread ⟨none, next⟩).Hosts thread handle entry next leases := by
  obtain ⟨core, hcore, rfl⟩ := h.core
  exact h.own hcore (Process.heap_set_self hcore).symm rfl rfl next

/-- The thread is within the call: on its way to the core, or about to lock
it. -/
def Process.WithinCall (thread : ThreadId) (handle : UInt64) (entry : Nat) (call : LeaseCall)
    (p : Process) (leases : OrdMap UInt64 Lease) : Prop :=
  ∃ access, call.Section handle access ∧
    (p.Hosts thread handle entry (some (.lookup handle access)) leases ∨
      p.Hosts thread handle entry (some (.locked entry access)) leases)

/-- The thread is between two calls. -/
def Process.BetweenCalls (thread : ThreadId) (handle : UInt64) (entry : Nat) (p : Process)
    (leases : OrdMap UInt64 Lease) : Prop :=
  p.Hosts thread handle entry none leases

/-- What a step of the call comes to. -/
abbrev LeaseCall.Answers (thread : ThreadId) (handle : UInt64) (entry : Nat) :
    LeaseCall → OrdMap UInt64 Lease → Process × Option (StitchResult × Output) → Prop :=
  Client.Answers (LeaseCall.Served thread) (Process.BetweenCalls thread handle entry)
    (Process.WithinCall thread handle entry)

omit [Sha256] in
theorem Process.freshHandle_ne_zero (p : Process) : p.freshHandle ≠ 0 := by
  change (if p.nextHandle ≤ 1 then 1 else p.nextHandle) ≠ 0
  split
  · decide
  · next hle =>
    intro hzero
    rw [hzero] at hle
    exact hle (by decide)

variable {call : LeaseCall} {answer : Process × Option (StitchResult × Output)}

theorem Process.Hosts.begins (h : p.Hosts thread handle entry none leases)
    (hstep : p.step (.begin thread (call.call handle)) = some answer) :
    call.Answers thread handle entry leases answer := by
  simp only [Process.step, h.stands, Option.isSome_none] at hstep
  split at hstep
  · next error hstart =>
    cases hstep
    exact ⟨leases, LeaseCall.served_of_start hstart, h⟩
  · next pc hstart =>
    cases hstep
    obtain ⟨access, rfl, hsection⟩ := LeaseCall.section_of_start hstart
    exact ⟨access, hsection, .inl (h.goes _)⟩

theorem Process.Hosts.looksUp {access : Access} (hsection : call.Section handle access)
    (h : p.Hosts thread handle entry (some (.lookup handle access)) leases)
    (hstep : p.step (.advance thread) = some answer) :
    call.Answers thread handle entry leases answer := by
  have hexec : p.exec thread (.lookup handle access) =
      .ok (p, .continues (.locked entry access)) := by
    simp only [Process.exec, h.bound]
    rfl
  simp only [Process.step, h.stands, hexec, Option.some.injEq] at hstep
  subst hstep
  exact ⟨access, hsection, .inr (h.goes _)⟩

theorem Process.Hosts.locks {access : Access} (hsection : call.Section handle access)
    (h : p.Hosts thread handle entry (some (.locked entry access)) leases)
    (hstep : p.step (.advance thread) = some answer) :
    call.Answers thread handle entry leases answer := by
  obtain ⟨core, hcore, rfl⟩ := h.core
  simp only [Process.step, h.stands] at hstep
  cases hexec : p.exec thread (.locked entry access) with
  | error error =>
      rw [hexec] at hstep
      cases hstep
      exact ⟨core.leases, hsection.fails hcore hexec, h.goes none⟩
  | ok ended =>
      obtain ⟨q, progress⟩ := ended
      rw [hexec] at hstep
      obtain ⟨core', haccess⟩ : ∃ core', p.Accesses thread entry core access q progress core' := by
        simp only [Process.exec, hcore] at hexec
        exact Process.access_accesses hcore hexec
      have howned := h.own hcore haccess.heap haccess.cores haccess.threads
      obtain ⟨result, output, rfl, hserved⟩ | ⟨access', rfl, hsection', hleases⟩ :=
        hsection.serves p.freshHandle_ne_zero haccess.serves
      · cases hstep
        exact ⟨core'.leases, hserved, howned none⟩
      · cases hstep
        rw [← hleases]
        exact ⟨access', hsection', .inl (howned _)⟩

/-- The library as the lease calls of the thread use it, while other threads
edit and read. -/
def leaseService (thread : ThreadId) (handle : UInt64) :
    Service Process LeaseCall (StitchResult × Output) Action where
  begins p call := p.step (.begin thread (call.call handle))
  advances p := p.step (.advance thread)
  interferes p action := if action.edits thread then (p.step action).map Prod.fst else none

theorem Process.Hosts.interferes_eq (h : p.Hosts thread handle entry pc leases) {action : Action}
    (hstep : (leaseService thread handle).interferes p action = some q) :
    q.Hosts thread handle entry pc leases := by
  obtain ⟨hedits, hstep⟩ := Option.ite_none_right_eq_some.mp hstep
  obtain ⟨⟨q, returned⟩, hlabel, rfl⟩ := Option.map_eq_some_iff.mp hstep
  have hlabel : p.Step ⟨action, returned⟩ q := hlabel
  exact h.interferes hedits hlabel

/-- **Lease calls are atomic** for their thread. -/
theorem leaseService_atomic (thread : ThreadId) (handle : UInt64) (entry : Nat) :
    (leaseService thread handle).Atomic (LeaseCall.Served thread)
      (Process.BetweenCalls thread handle entry) (Process.WithinCall thread handle entry) where
  begins h hstep := Process.Hosts.begins h hstep
  advances h hstep := by
    obtain ⟨access, hsection, h | h⟩ := h
    · exact h.looksUp hsection hstep
    · exact h.locks hsection hstep
  idle_interferes h hstep := Process.Hosts.interferes_eq h hstep
  within_interferes h hstep := by
    obtain ⟨access, hsection, h⟩ := h
    exact ⟨access, hsection, h.imp (·.interferes_eq hstep) (·.interferes_eq hstep)⟩

end Threads

end StitchEditor.Abi
