import Mathlib
import StitchEditor.Abi.Acquisition
import StitchEditor.Abi.Callers
import StitchEditor.Abi.Lifetime
import StitchEditor.Abi.Sequential

/-!
# StitchEditor.Abi.Drain

No lease gets stuck.

A lease is `Retired` only between the two sections of the call that retires
it (`Recorded.removing_of_retired`), so that between calls every lease is in
a state that its owner can leave.  Discarding, completing and retiring do not
look at epoch and revision: whatever became of the core, its leases can be
drained and the core destroyed (`leases_drain`).
-/

namespace StitchEditor.Abi

open StitchEditor Fallible Run

section Drain

variable [Sha256]

/-! ## retired leases -/

variable {p p' q : Process} {tr : Transition} {trs : List Transition} {thread : ThreadId}
  {entry : Nat} {handle id device : UInt64} {core core' : CoreState} {lease : Lease}

/-- The thread is about to remove the lease, if the handle stands for the
core of the entry. -/
def Process.RemovesAt (p : Process) (thread : ThreadId) (handle : UInt64) (entry : Nat)
    (id : UInt64) : Prop :=
  (p.threads thread).pc = some (.lookup handle (.remove id)) ∨
    (p.threads thread).pc = some (.locked entry (.remove id))

/-- Such a thread comes to remove the lease. -/
theorem Process.RemovesAt.joins (h : p.RemovesAt thread handle entry id)
    (hjoins : Transition.Joins p tr p') (hbound : p.cores[handle]? = some entry)
    (hcore : p.heap[entry]? = some core) :
    p'.RemovesAt thread handle entry id ∨ p'.leaseAt entry id = none := by
  by_cases hthread : thread = tr.label.action.thread
  · obtain ⟨before, label, after⟩ := tr
    obtain ⟨rfl, rfl, hstep⟩ := hjoins
    have htakes : before.Takes label after := hstep.takes
    cases htakes with
    | reject hpc _ | start hpc _ =>
        obtain rfl : thread = _ := hthread
        simp [Process.RemovesAt, hpc] at h
    | endCallback hidle =>
        obtain rfl : thread = _ := hthread
        simp [Process.RemovesAt, hidle] at h
    | fail hpc hexec =>
        obtain rfl : thread = _ := hthread
        rcases h with h | h
        · obtain rfl := Option.some.inj (hpc.symm.trans h)
          simp [Process.exec, hbound, pure, Except.pure] at hexec
        · obtain rfl := Option.some.inj (hpc.symm.trans h)
          simp [Process.exec, hcore, Process.access, pure, Except.pure] at hexec
    | run hpc hexecutes =>
        obtain rfl : thread = _ := hthread
        rcases h with h | h
        · obtain rfl := Option.some.inj (hpc.symm.trans h)
          cases hexecutes with
          | lookup hbound' =>
              obtain rfl := Option.some.inj (hbound.symm.trans hbound')
              exact .inl (.inr (by simp [Process.setThread, Progress.leaves]))
          | counted htables _ => cases htables
        · obtain rfl := Option.some.inj (hpc.symm.trans h)
          cases hexecutes with
          | locked hcore' haccess =>
              obtain rfl := Option.some.inj (hcore.symm.trans hcore')
              obtain ⟨hserves, hheap, -⟩ := haccess
              cases hserves with
              | remove =>
                  right
                  have hlt := (List.getElem?_eq_some_iff.mp hcore).1
                  simp [Process.leaseAt, Process.setThread, hheap, hlt, CoreState.removeLease]
          | counted htables _ => cases htables
  · left
    simpa only [Process.RemovesAt, hjoins.threads_ne hthread] using h

/-- The handle that a retirement goes on with is the one it has looked up. -/
def Pc.Routed : Pc → Prop
  | .lookup handle (.transition _ _ _ _ (some core)) => core = handle
  | _ => True

omit [Sha256] in
theorem Pc.routed_of_start {call : Call} {inCallback : Bool} {pc : Pc}
    (h : call.start inCallback = .ok pc) : pc.Routed := by
  cases call <;> simp only [Call.start, bind_eq_ok_iff, pure_eq_ok_iff] at h <;> grind [Pc.Routed]

/-- While the core that a retirement has looked up is in the registry, it is
there under the handle that the retirement goes on with. -/
theorem Recorded.routed (hrun : Recorded trs p) {expected next : LeaseState} {core : UInt64}
    (hpc : (p.threads thread).pc =
      some (.locked entry (.transition id device expected next (some core))))
    (hbound : p.cores[handle]? = some entry) : handle = core := by
  have hrouted : entry < p.heap.length ∧
      ∀ handle, p.cores[handle]? = some entry → handle = core := by
    clear hbound
    refine hrun.invariant (I := fun _ p => ∀ thread entry id device expected next core,
      (p.threads thread).pc =
        some (.locked entry (.transition id device expected next (some core))) →
      entry < p.heap.length ∧ ∀ handle, p.cores[handle]? = some entry → handle = core)
      (fun _ _ _ _ _ _ _ hpc => by cases hpc) ?_ _ _ _ _ _ _ _ hpc
    intro trs p tr p' hrun ih hjoins thread entry id device expected next core hpc
    have hreaches := hjoins.reaches hpc
    have hbefore : entry < tr.before.heap.length ∧
        ∀ handle, tr.before.cores[handle]? = some entry → handle = core := by
      obtain ⟨rfl, -, -⟩ := hjoins
      obtain ⟨-, hpc⟩ | ⟨found, -, hpc, hfound⟩ := hreaches.locked
      · exact ih _ _ _ _ _ _ _ hpc
      · have hwired := hrun.wired
        have hrouted : core = found := hrun.pc_invariant (P := Pc.Routed)
          (fun _ _ _ _ _ _ _ hstart => Pc.routed_of_start hstart)
          (by
            intro q q' thread pc pc' hexecutes _
            cases hexecutes with
            | allocateCore | allocateDiff | lookup _ => trivial
            | insertDiff hprogress => split at hprogress <;> cases hprogress
            | locked _ haccess => cases haccess.serves <;> trivial) hpc
        exact ⟨hwired.lt hfound, fun handle hbound => (hwired.inj hbound hfound).trans hrouted.symm⟩
    rw [hjoins.before] at hbefore
    obtain ⟨hlt, honly⟩ := hbefore
    obtain ⟨hlt', hbound⟩ := hjoins.keepsEntry hlt
    exact ⟨hlt', fun handle h => honly handle (hbound handle h)⟩
  exact hrouted.2 handle hbound

/-- **A retired lease is about to be removed**, as long as its core is in the
registry. -/
theorem Recorded.removing_of_retired (hrun : Recorded trs p)
    (hlease : p.leaseAt entry id = some lease) (hstate : lease.state = .retired)
    (hbound : p.cores[handle]? = some entry) : ∃ thread, p.RemovesAt thread handle entry id := by
  refine hrun.invariant (I := fun _ p => ∀ lease, p.leaseAt entry id = some lease →
    lease.state = .retired → p.cores[handle]? = some entry →
    ∃ thread, p.RemovesAt thread handle entry id) nofun ?_ lease hlease hstate hbound
  intro trs p tr p' hrun ih hjoins lease hlease hstate hbound
  have hon := hjoins.on entry
  -- the core was in the registry before
  have hbefore : ∀ {core}, p.heap[entry]? = some core → p.cores[handle]? = some entry :=
    fun hcore => (hjoins.keepsEntry (List.getElem?_eq_some_iff.mp hcore).1).2 handle hbound
  -- where the lease was retired already, some thread stands before its removal
  have hkeeps : p.leaseAt entry id = some lease →
      ∃ thread, p'.RemovesAt thread handle entry id := by
    intro hold
    obtain ⟨core, hcore, -⟩ := Process.leaseAt_eq_some_iff.mp hold
    obtain ⟨thread, hremoves⟩ := ih lease hold hstate (hbefore hcore)
    obtain hremoves | hnone := hremoves.joins hjoins (hbefore hcore) hcore
    · exact ⟨thread, hremoves⟩
    · rw [hlease] at hnone
      cases hnone
  cases hon with
  | creates _ _ hafter =>
      rw [hjoins.after] at hafter
      simp [Process.leaseAt, hafter] at hlease
  | keeps _ hheap =>
      rw [hjoins.before, hjoins.after] at hheap
      exact hkeeps (by rw [Process.leaseAt, ← hheap]; exact hlease)
  | @serves other access core core' progress hserves =>
      have hmoves := hserves.serves.moves id
      have hafter := hserves.after
      rw [hjoins.after] at hafter
      rw [Process.leaseAt, hafter, Option.bind_some] at hlease
      have hfound := hserves.found
      rw [hjoins.before] at hfound
      generalize hnew : core'.leases[id]? = new at hmoves
      generalize hold : core.leases[id]? = old at hmoves
      cases hmoves with
      | keeps =>
          refine hkeeps ?_
          rw [Process.leaseAt, hfound, Option.bind_some, hold, ← hnew, hlease]
      | registers _ =>
          obtain rfl := Option.some.inj (hnew.symm.trans hlease)
          cases hstate
      | discards _ _ _ | removes =>
          rw [hnew] at hlease
          cases hlease
      | @transitions device expected next retire before _ _ _ =>
          obtain rfl := Option.some.inj (hnew.symm.trans hlease)
          obtain rfl : next = .retired := hstate
          have hpc := hserves.pc
          rw [hjoins.before] at hpc
          -- only a call of retire has this section, and it goes on to remove the lease
          obtain ⟨call, -, hwithin⟩ := hrun.within hpc
          cases hwithin with
          | still h => exact h.elim
          | @retire found _ _ =>
              obtain rfl := hrun.routed hpc (hbefore hfound)
              refine ⟨other, .inl ?_⟩
              rw [← hjoins.after, hserves.threads, Function.update_self]
              cases hserves.serves with
              | retire _ => rfl

/-! ## calls on a lease -/

/-- The core of the handle has become another one, and nothing else has
changed that calls on leases look at. -/
structure Process.Becomes (p : Process) (handle : UInt64) (core : CoreState) (q : Process) :
    Prop where
  threads : q.threads = p.threads
  cores : q.cores = p.cores
  heap : ∃ entry before, p.cores[handle]? = some entry ∧ p.heap[entry]? = some before ∧
    q.heap = p.heap.set entry core

namespace Process.Becomes

variable {r : Process}

omit [Sha256] in
theorem core?_eq (h : p.Becomes handle core q) : q.core? handle = some core := by
  obtain ⟨entry, before, hbound, hbefore, hheap⟩ := h.heap
  have hlt := (List.getElem?_eq_some_iff.mp hbefore).1
  rw [Process.core?, h.cores, hbound, Option.bind_some, hheap, List.getElem?_set_self hlt]

omit [Sha256] in
theorem trans (h : p.Becomes handle core q) (h' : q.Becomes handle core' r) :
    p.Becomes handle core' r := by
  obtain ⟨entry, before, hbound, hbefore, hheap⟩ := h.heap
  obtain ⟨entry', before', hbound', -, hheap'⟩ := h'.heap
  rw [h.cores] at hbound'
  obtain rfl := Option.some.inj (hbound.symm.trans hbound')
  refine ⟨h'.threads.trans h.threads, h'.cores.trans h.cores, entry, before, hbound, hbefore, ?_⟩
  rw [hheap', hheap, List.set_set]

omit [Sha256] in
theorem refl (hcore : p.core? handle = some core) : p.Becomes handle core p := by
  obtain ⟨entry, hbound, hcore⟩ := Option.bind_eq_some_iff.mp hcore
  refine ⟨rfl, rfl, entry, core, hbound, hcore, ?_⟩
  obtain ⟨hlt, rfl⟩ := List.getElem?_eq_some_iff.mp hcore
  exact (List.set_getElem_self hlt).symm

end Process.Becomes

/-- A call of the thread stands at the program counter; the core of the
handle has become `core`. -/
structure Process.Amid (p : Process) (thread : ThreadId) (entry : Nat) (core : CoreState)
    (pc : Pc) (q : Process) : Prop where
  here : q.threads thread = ⟨none, some pc⟩
  others : ∀ other ≠ thread, q.threads other = p.threads other
  cores : q.cores = p.cores
  heap : q.heap = p.heap.set entry core

namespace Process.Amid

variable {access : Access} {pc : Pc}

/-- A call begins. -/
theorem start {call : Call} (hidle : p.threads thread = ⟨none, none⟩)
    (hstart : call.start false = .ok pc) (hcore : p.heap[entry]? = some core) :
    ∃ q, p.call thread call = q.finish thread 5 ∧ p.Amid thread entry core pc q := by
  refine ⟨p.setThread thread ⟨none, some pc⟩, ?_, Function.update_self .., ?_, rfl, ?_⟩
  · simp only [Process.call, Process.step, hidle, Option.isSome_none, hstart]
  · exact fun other hne => Function.update_of_ne hne _ _
  · obtain ⟨hlt, rfl⟩ := List.getElem?_eq_some_iff.mp hcore
    exact (List.set_getElem_self hlt).symm

/-- It finds the core. -/
theorem lookup (h : p.Amid thread entry core (.lookup handle access) q) (sections : Nat)
    (hbound : p.cores[handle]? = some entry) :
    ∃ r, q.finish thread (sections + 1) = r.finish thread sections ∧
      p.Amid thread entry core (.locked entry access) r := by
  have hexec : q.exec thread (.lookup handle access) =
      .ok (q, .continues (.locked entry access)) := by
    simp only [Process.exec, h.cores, hbound]
    rfl
  refine ⟨_, Process.finish_of_continues h.here hexec, Function.update_self .., ?_, h.cores, h.heap⟩
  intro other hne
  rw [← h.others other hne]
  exact Function.update_of_ne hne _ _

/-- A section under the lock of the core, and more to come. -/
theorem continues (h : p.Amid thread entry core (.locked entry access) q) (sections : Nat)
    (hlt : entry < p.heap.length)
    (haccess : q.access thread entry core access = .ok (q.setCore entry core', .continues pc)) :
    ∃ r, q.finish thread (sections + 1) = r.finish thread sections ∧
      p.Amid thread entry core' pc r := by
  have hexec : q.exec thread (.locked entry access) =
      .ok (q.setCore entry core', .continues pc) := by
    simp only [Process.exec, h.heap, List.getElem?_set_self hlt, haccess]
  refine ⟨_, Process.finish_of_continues h.here hexec, Function.update_self .., ?_, h.cores, ?_⟩
  · intro other hne
    rw [← h.others other hne]
    exact Function.update_of_ne hne _ _
  · change q.heap.set entry core' = _
    rw [h.heap, List.set_set]

/-- The last section. -/
theorem finishes (h : p.Amid thread entry core (.locked entry access) q) (sections : Nat)
    (hidle : p.threads thread = ⟨none, none⟩) (hbound : p.cores[handle]? = some entry)
    {before : CoreState} (hbefore : p.heap[entry]? = some before)
    (haccess : q.access thread entry core access =
      .ok (q.setCore entry core', .finished .ok .none)) :
    ∃ r, q.finish thread (sections + 1) = some (r, .ok, .none) ∧ p.Becomes handle core' r := by
  have hlt := (List.getElem?_eq_some_iff.mp hbefore).1
  have hexec : q.exec thread (.locked entry access) =
      .ok (q.setCore entry core', .finished .ok .none) := by
    simp only [Process.exec, h.heap, List.getElem?_set_self hlt, haccess]
  refine ⟨_, Process.finish_of_finished h.here hexec, ?_, h.cores, entry, before, hbound,
    hbefore, ?_⟩
  · funext other
    by_cases hother : other = thread
    · subst hother
      exact (Function.update_self ..).trans hidle.symm
    · exact (Function.update_of_ne hother _ _).trans (h.others other hother)
  · change q.heap.set entry core' = _
    rw [h.heap, List.set_set]

end Process.Amid

section Calls

variable (hidle : p.threads thread = ⟨none, none⟩) (hcore : p.core? handle = some core)

include hidle hcore

/-- A call with one section under the lock of the core. -/
theorem Process.call_of_access {call : Call} (access : Access)
    (hstart : call.start false = .ok (.lookup handle access))
    (haccess : ∀ (q : Process) (entry : Nat), q.access thread entry core access =
      .ok (q.setCore entry core', .finished .ok .none)) :
    ∃ q, p.call thread call = some (q, .ok, .none) ∧ p.Becomes handle core' q := by
  obtain ⟨entry, hbound, hfound⟩ := Option.bind_eq_some_iff.mp hcore
  obtain ⟨q, hcall, hstarted⟩ := Process.Amid.start hidle hstart hfound
  obtain ⟨r, hlookup, hlocked⟩ := hstarted.lookup 4 hbound
  obtain ⟨s, hfinish, hbecomes⟩ :=
    hlocked.finishes 3 hidle hbound hfound (haccess r entry)
  exact ⟨s, hcall.trans (hlookup.trans hfinish), hbecomes⟩

theorem Process.call_discard (hdiscard : core.discard thread id device = .ok core') :
    ∃ q, p.call thread (.frameLeaseDiscard handle id device) = some (q, .ok, .none) ∧
      p.Becomes handle core' q := by
  refine Process.call_of_access hidle hcore (.discard id device) rfl fun q entry => ?_
  simp only [Process.access, hdiscard]
  rfl

theorem Process.call_complete
    (htransition : core.leaseTransition thread id device .submitted .completed = .ok core') :
    ∃ q, p.call thread (.frameLeaseComplete handle id device) = some (q, .ok, .none) ∧
      p.Becomes handle core' q := by
  refine Process.call_of_access hidle hcore
    (.transition id device .submitted .completed none) rfl fun q entry => ?_
  simp only [Process.access, htransition]
  rfl

/-- A retirement has two sections under the lock. -/
theorem Process.call_retire
    (htransition : core.leaseTransition thread id device .completed .retired = .ok core') :
    ∃ q, p.call thread (.frameLeaseRetire handle id device) = some (q, .ok, .none) ∧
      p.Becomes handle (core'.removeLease id) q := by
  obtain ⟨entry, hbound, hfound⟩ := Option.bind_eq_some_iff.mp hcore
  have hlt := (List.getElem?_eq_some_iff.mp hfound).1
  have haccess : ∀ q : Process, q.access thread entry core
      (.transition id device .completed .retired (some handle)) =
        .ok (q.setCore entry core', .continues (.lookup handle (.remove id))) := by
    intro q
    simp only [Process.access, htransition]
    rfl
  obtain ⟨q₀, hcall, hstarted⟩ := Process.Amid.start hidle
    (show (Call.frameLeaseRetire handle id device).start false = .ok _ from rfl) hfound
  obtain ⟨q₁, hlookup, hlocked⟩ := hstarted.lookup 4 hbound
  obtain ⟨q₂, hcontinue, hretired⟩ := hlocked.continues 3 hlt (haccess q₁)
  obtain ⟨q₃, hlookup', hlocked'⟩ := hretired.lookup 2 hbound
  obtain ⟨q₄, hfinish, hbecomes⟩ := hlocked'.finishes 1 hidle hbound hfound rfl
  exact ⟨q₄, by rw [hcall, hlookup, hcontinue, hlookup', hfinish], hbecomes⟩

end Calls

/-! ## draining -/

/-- No call is in progress. -/
def Process.Quiescent (self : Process) : Prop := ∀ thread, self.threads thread = ⟨none, none⟩

/-- The calls of its owner that end the lease, according to its state. -/
def Lease.drain (lease : Lease) (handle id : UInt64) : List (ThreadId × Call) :=
  match lease.state with
  | .registered => [(lease.owner, .frameLeaseDiscard handle id lease.metadata.deviceGeneration)]
  | .acquired => [(lease.owner, .frameLeaseDiscard handle id lease.metadata.deviceGeneration)]
  | .submitted =>
      [(lease.owner, .frameLeaseComplete handle id lease.metadata.deviceGeneration),
        (lease.owner, .frameLeaseRetire handle id lease.metadata.deviceGeneration)]
  | .completed => [(lease.owner, .frameLeaseRetire handle id lease.metadata.deviceGeneration)]
  | .retired => []

/-- The calls that end all leases of the core. -/
def CoreState.drain (self : CoreState) (handle : UInt64) : List (ThreadId × Call) :=
  self.leases.toList.flatMap fun entry => entry.2.drain handle entry.1

/-- A call that has to return `Ok`. -/
def Process.callOk (self : Process) (caller : ThreadId × Call) : Option Process :=
  match self.call caller.1 caller.2 with
  | some (next, .ok, _) => some next
  | _ => none

theorem Process.callOk_eq_some {call : Call} {output : Output}
    (h : p.call thread call = some (q, .ok, output)) : p.callOk (thread, call) = some q := by
  simp only [Process.callOk, h]

omit [Sha256] in
theorem CoreState.ownedLease_self (hlease : core.leases[id]? = some lease) :
    core.ownedLease lease.owner id lease.metadata.deviceGeneration = .ok lease :=
  ownedLease_eq_ok_iff.mpr ⟨hlease, rfl, rfl⟩

omit [Sha256] in
@[simp] theorem CoreState.removeLease_insert {state : Lease} :
    removeLease { core with leases := core.leases.insert id state } id = core.removeLease id := by
  simp only [removeLease, CoreState.mk.injEq, true_and, and_true]
  exact Table.erase_insert_self

/-- A completed lease is retired and removed. -/
theorem Process.call_retire_completed (hidle : p.threads lease.owner = ⟨none, none⟩)
    (hcore : p.core? handle = some core) (hlease : core.leases[id]? = some lease)
    (hstate : lease.state = .completed) :
    ∃ q, p.call lease.owner (.frameLeaseRetire handle id lease.metadata.deviceGeneration) =
        some (q, .ok, .none) ∧ p.Becomes handle (core.removeLease id) q := by
  have htransition : core.leaseTransition lease.owner id lease.metadata.deviceGeneration
      .completed .retired = .ok _ :=
    CoreState.leaseTransition_eq_ok_iff.mpr ⟨lease, CoreState.ownedLease_self hlease, hstate, rfl⟩
  obtain ⟨q, hcall, hbecomes⟩ := p.call_retire hidle hcore htransition
  exact ⟨q, hcall, by simpa using hbecomes⟩

/-- **A lease that is not retired can be drained.** -/
theorem Process.drains_lease (hidle : p.threads lease.owner = ⟨none, none⟩)
    (hcore : p.core? handle = some core) (hlease : core.leases[id]? = some lease)
    (hstate : lease.state ≠ .retired) :
    ∃ q, (lease.drain handle id).foldlM Process.callOk p = some q ∧
      p.Becomes handle (core.removeLease id) q := by
  have howned := CoreState.ownedLease_self hlease
  have hdiscards : lease.state = .registered ∨ lease.state = .acquired →
      core.discard lease.owner id lease.metadata.deviceGeneration = .ok (core.removeLease id) :=
    fun hstate => CoreState.discard_eq_ok_iff.mpr ⟨lease, howned, hstate, rfl⟩
  unfold Lease.drain
  cases hcase : lease.state with
  | registered =>
      obtain ⟨q, hcall, hbecomes⟩ := p.call_discard hidle hcore (hdiscards (.inl hcase))
      exact ⟨q, by simp [Process.callOk_eq_some hcall], hbecomes⟩
  | acquired =>
      obtain ⟨q, hcall, hbecomes⟩ := p.call_discard hidle hcore (hdiscards (.inr hcase))
      exact ⟨q, by simp [Process.callOk_eq_some hcall], hbecomes⟩
  | completed =>
      obtain ⟨q, hcall, hbecomes⟩ := p.call_retire_completed hidle hcore hlease hcase
      exact ⟨q, by simp [Process.callOk_eq_some hcall], hbecomes⟩
  | submitted =>
      have hcomplete : core.leaseTransition lease.owner id lease.metadata.deviceGeneration
          .submitted .completed =
            .ok { core with leases := core.leases.insert id (lease.inState .completed) } :=
        CoreState.leaseTransition_eq_ok_iff.mpr ⟨lease, howned, hcase, rfl⟩
      obtain ⟨q, hcall, hbecomes⟩ := p.call_complete hidle hcore hcomplete
      have hcompleted : ({ core with leases := core.leases.insert id (lease.inState .completed) } :
          CoreState).leases[id]? = some (lease.inState .completed) :=
        Std.ExtTreeMap.getElem?_insert_self
      have hidle' : q.threads (lease.inState .completed).owner = ⟨none, none⟩ := by
        rw [hbecomes.threads]
        exact hidle
      obtain ⟨r, hcall', hbecomes'⟩ :=
        q.call_retire_completed hidle' hbecomes.core?_eq hcompleted rfl
      rw [CoreState.removeLease_insert] at hbecomes'
      have hretires : q.callOk (lease.owner,
          .frameLeaseRetire handle id lease.metadata.deviceGeneration) = some r :=
        Process.callOk_eq_some hcall'
      exact ⟨r, by simp [Process.callOk_eq_some hcall, hretires], hbecomes.trans hbecomes'⟩
  | retired => exact absurd hcase hstate

/-- A list of all leases of a core is drained one by one. -/
theorem Process.drains_leases {leases : List (UInt64 × Lease)} (hquiescent : p.Quiescent)
    (hcore : p.core? handle = some core) (hnodup : (leases.map Prod.fst).Nodup)
    (hleases : ∀ id lease, core.leases[id]? = some lease ↔ (id, lease) ∈ leases)
    (hstate : ∀ entry ∈ leases, entry.2.state ≠ .retired) :
    ∃ q, (leases.flatMap fun entry => entry.2.drain handle entry.1).foldlM Process.callOk p =
        some q ∧ p.Becomes handle { core with leases := ∅ } q := by
  induction leases generalizing p core with
  | nil =>
      have hempty : core.leases = ∅ := Std.ExtTreeMap.ext_getElem? fun id => by
        rw [Std.ExtTreeMap.getElem?_empty, Option.eq_none_iff_forall_ne_some]
        intro lease hlease
        cases (hleases id lease).mp hlease
      refine ⟨p, rfl, ?_⟩
      rw [← hempty]
      exact .refl hcore
  | cons entry leases ih =>
      obtain ⟨id, lease⟩ := entry
      have hlease : core.leases[id]? = some lease := (hleases id lease).mpr (.head _)
      obtain ⟨q, hdrains, hbecomes⟩ := p.drains_lease (hquiescent _) hcore hlease
        (hstate _ (.head _))
      obtain ⟨hnotin, hnodup⟩ := List.nodup_cons.mp hnodup
      have hrest : ∀ other lease', (core.removeLease id).leases[other]? = some lease' ↔
          (other, lease') ∈ leases := by
        intro other lease'
        rw [CoreState.removeLease, Table.getElem?_erase_eq_some_iff, hleases, List.mem_cons]
        constructor
        · rintro ⟨hne, h | h⟩
          · exact absurd (congrArg Prod.fst h) hne
          · exact h
        · refine fun h => ⟨?_, .inr h⟩
          rintro rfl
          exact hnotin (List.mem_map.mpr ⟨_, h, rfl⟩)
      have hquiescent' : q.Quiescent := fun thread => by rw [hbecomes.threads, hquiescent]
      obtain ⟨r, hdrains', hbecomes'⟩ := ih hquiescent' hbecomes.core?_eq hnodup hrest
        fun entry h => hstate entry (.tail _ h)
      refine ⟨r, ?_, hbecomes.trans hbecomes'⟩
      rw [List.flatMap_cons, List.foldlM_append, hdrains]
      exact hdrains'

/-! ## destruction -/

omit [Sha256] in
theorem Process.destroy_eq (hcore : p.core? handle = some core) :
    p.destroy core.owner handle =
      if core.leases = ∅ then .ok { p with cores := p.cores.erase handle }
      else .error .badLeaseState := by
  unfold Process.core? at hcore
  by_cases hleases : core.leases = ∅ <;> simp [Process.destroy, hcore, refuse, hleases, bind,
    Except.bind, pure, Except.pure]

theorem Process.call_destroy_eq (hidle : p.threads core.owner = ⟨none, none⟩) :
    p.call core.owner (.coreDestroy handle) =
      (p.setThread core.owner ⟨none, some (.destroy handle)⟩).finish core.owner 5 := by
  have hstart : (Call.coreDestroy handle).start false = .ok (.destroy handle) := rfl
  simp only [Process.call, Process.step, hidle, Option.isSome_none, hstart]

/-- The owner destroys a core without leases. -/
theorem Process.call_destroy (hidle : p.threads core.owner = ⟨none, none⟩)
    (hcore : p.core? handle = some core) (hleases : core.leases = ∅) :
    ∃ q, p.call core.owner (.coreDestroy handle) = some (q, .ok, .none) ∧
      q.core? handle = none := by
  set q := p.setThread core.owner ⟨none, some (.destroy handle)⟩
  have hdestroy := q.destroy_eq (show q.core? handle = some core from hcore)
  rw [if_pos hleases] at hdestroy
  have hexec : q.exec core.owner (.destroy handle) =
      .ok ({ q with cores := q.cores.erase handle }, .finished .ok .none) := by
    simp only [Process.exec, hdestroy]
    rfl
  have hcall := (Process.call_destroy_eq hidle).trans
    (Process.finish_of_finished (Function.update_self ..) hexec)
  exact ⟨_, hcall, by simp [Process.core?, Process.setThread]⟩

/-- The section of a destruction refuses while there are leases. -/
theorem Process.step_destroy (hpc : (p.threads core.owner).pc = some (.destroy handle))
    (hcore : p.core? handle = some core) (hleases : core.leases ≠ ∅) :
    p.step (.advance core.owner) =
      some (p.setThread core.owner { p.threads core.owner with pc := none },
        some (.badLeaseState, .none)) := by
  have hdestroy := p.destroy_eq hcore
  rw [if_neg hleases] at hdestroy
  have hexec : p.exec core.owner (.destroy handle) = .error .badLeaseState := by
    simp only [Process.exec, hdestroy]
    rfl
  simp only [Process.step, hpc, hexec]

/-- The owner cannot destroy a core with leases. -/
theorem Process.call_destroy_refused (hidle : p.threads core.owner = ⟨none, none⟩)
    (hcore : p.core? handle = some core) (hleases : core.leases ≠ ∅) :
    ∃ q, p.call core.owner (.coreDestroy handle) = some (q, .badLeaseState, .none) ∧
      p.Becomes handle core q := by
  set q := p.setThread core.owner ⟨none, some (.destroy handle)⟩
  have hdestroy := q.destroy_eq (show q.core? handle = some core from hcore)
  rw [if_neg hleases] at hdestroy
  have hexec : q.exec core.owner (.destroy handle) = .error .badLeaseState := by
    simp only [Process.exec, hdestroy]
    rfl
  have hcall := (Process.call_destroy_eq hidle).trans
    (Process.finish_of_error (Function.update_self ..) hexec)
  obtain ⟨-, -, hheap⟩ := Process.Becomes.refl hcore
  refine ⟨_, hcall, ?_, rfl, hheap⟩
  funext other
  by_cases hother : other = core.owner
  · subst hother
    exact (Function.update_self ..).trans hidle.symm
  · exact (Function.update_of_ne hother _ _).trans (Function.update_of_ne hother _ _)

/-- Between calls no lease in the registry is retired. -/
theorem Recorded.not_retired (hrun : Recorded trs p) (hquiescent : p.Quiescent)
    (hcore : p.core? handle = some core) (hlease : core.leases[id]? = some lease) :
    lease.state ≠ .retired := by
  intro hstate
  obtain ⟨entry, hbound, hfound⟩ := Option.bind_eq_some_iff.mp hcore
  have hleaseAt := Process.leaseAt_eq_some_iff.mpr ⟨core, hfound, hlease⟩
  obtain ⟨thread, hremoves⟩ := hrun.removing_of_retired hleaseAt hstate hbound
  simp [Process.RemovesAt, hquiescent thread] at hremoves

/-- **No lease gets stuck**: between calls, each lease of a core in the
registry can be drained by its owner, and when all are drained the core can
be destroyed by its own; until then it cannot. -/
theorem leases_drain {labels : List Label} (hrun : Runs Process.Step Process.initial labels p)
    (hcore : p.core? handle = some core) :
    (p.Quiescent →
      (∀ id lease, core.leases[id]? = some lease → ∃ q,
        (lease.drain handle id).foldlM Process.callOk p = some q ∧
          p.Becomes handle (core.removeLease id) q) ∧
      ∃ q r, (core.drain handle).foldlM Process.callOk p = some q ∧
        p.Becomes handle { core with leases := ∅ } q ∧
        q.call core.owner (.coreDestroy handle) = some (r, .ok, .none) ∧
        r.core? handle = none) ∧
    (core.leases ≠ ∅ →
      (p.threads core.owner = ⟨none, none⟩ → ∃ q,
        p.call core.owner (.coreDestroy handle) = some (q, .badLeaseState, .none) ∧
          p.Becomes handle core q) ∧
      ∀ returned p', (p.threads core.owner).pc = some (.destroy handle) →
        p.Step ⟨.advance core.owner, returned⟩ p' →
          returned = some (.badLeaseState, .none) ∧ p'.core? handle = some core) := by
  obtain ⟨trs, hrecorded, -⟩ := exists_recorded hrun
  refine ⟨fun hquiescent => ⟨fun id lease hlease => ?_, ?_⟩, fun hleases => ⟨fun hidle => ?_, ?_⟩⟩
  · exact p.drains_lease (hquiescent _) hcore hlease
      (Recorded.not_retired hrecorded hquiescent hcore hlease)
  · have hlisted : ∀ id lease, core.leases[id]? = some lease ↔ (id, lease) ∈ core.leases.toList :=
      fun _ _ => Table.mem_toList_iff.symm
    obtain ⟨q, hdrains, hbecomes⟩ := p.drains_leases hquiescent hcore
      (Table.nodup_map_fst_toList _) hlisted fun entry hentry =>
        Recorded.not_retired hrecorded hquiescent hcore ((hlisted _ _).mpr hentry)
    have hidle : q.threads ({ core with leases := ∅ } : CoreState).owner = ⟨none, none⟩ := by
      rw [hbecomes.threads, hquiescent]
    obtain ⟨r, hcall, hgone⟩ := q.call_destroy hidle hbecomes.core?_eq rfl
    exact ⟨q, r, hdrains, hbecomes, hcall, hgone⟩
  · exact p.call_destroy_refused hidle hcore hleases
  · intro returned p' hpc hstep
    rw [Process.Step, p.step_destroy hpc hcore hleases] at hstep
    cases hstep
    exact ⟨rfl, hcore⟩

/-! ## replaying a schedule -/

/-- A thread that does not act stays where it is. -/
theorem Process.threads_of_runs {labels : List Label} (hrun : Runs Process.Step p labels q)
    (hothers : ∀ label ∈ labels, label.action.thread ≠ thread) :
    q.threads thread = p.threads thread := by
  induction hrun with
  | nil => rfl
  | snoc _ hstep ih =>
      have hjoins : Transition.Joins _ ⟨_, _, _⟩ _ := ⟨rfl, rfl, hstep⟩
      rw [hjoins.threads_ne (hothers _ (by simp)).symm,
        ih fun label hlabel => hothers label (List.mem_append_left _ hlabel)]

end Drain

section Schedule

/-- The frame is acquired, and made stale. -/
def overtakenLabels : List Label :=
  promptLabels ++ [acquiredLabel, .pending (.begin 0 (.coreSetEpoch 1 1)), .pending (.advance 0),
    ⟨.advance 0, some (.ok, .none)⟩]

/-- Between calls, the frame is acquired and stale. -/
theorem any_overtakenLabels :
    letI := firstTrackSha256
    (overtakenLabels.foldlM Process.replay Process.initial).any fun p =>
      (p.threads 0).callback = none ∧ (p.threads 0).pc = none ∧ p.cores[(1 : UInt64)]? = some 0 ∧
        p.standing 0 2 = some (.acquired, false) := by
  decide +kernel

theorem overtakenLabels_thread : ∀ label ∈ overtakenLabels, label.action.thread = 0 := by
  decide +kernel

theorem leases_drain_overtakenLabels :
    letI := firstTrackSha256
    ∃ p core lease q, Runs Process.Step Process.initial overtakenLabels p ∧
      p.core? 1 = some core ∧ core.leases[(2 : UInt64)]? = some lease ∧
      lease.state = .acquired ∧ ¬ lease.Current core ∧
      (lease.drain 1 2).foldlM Process.callOk p = some q ∧
      p.Becomes 1 (core.removeLease 2) q := by
  let _ := firstTrackSha256
  obtain ⟨p, hreplay, hfacts⟩ := (Option.any_eq_true _ _).mp any_overtakenLabels
  obtain ⟨hcallback, hpc, hbound, hstanding⟩ := of_decide_eq_true hfacts
  have hrun := (Runs.of_foldlM hreplay).mono Process.step_of_replay
  have hquiescent : p.Quiescent := fun thread => by
    by_cases hthread : thread = 0
    · rw [hthread]
      exact congrArg₂ Thread.mk hcallback hpc
    · refine Process.threads_of_runs hrun fun label hlabel => ?_
      rw [overtakenLabels_thread label hlabel]
      exact fun h => hthread h.symm
  obtain ⟨core, lease, hfound, hlease, hstate, hcurrent⟩ :=
    Process.standing_eq_some_iff.mp hstanding
  have hcore : p.core? 1 = some core := by rw [Process.core?, hbound, Option.bind_some, hfound]
  obtain ⟨q, hdrains, hbecomes⟩ := ((leases_drain hrun hcore).1 hquiescent).1 2 lease hlease
  exact ⟨p, core, lease, q, hrun, hcore, hlease, hstate, of_decide_eq_false hcurrent, hdrains,
    hbecomes⟩

end Schedule

end StitchEditor.Abi
