import Mathlib
import StitchEditor.Abi.Errors
import StitchEditor.Abi.Leases
import StitchEditor.Abi.Staleness

/-!
# StitchEditor.Abi.Lifetime

Leases and the lifetime of their core.

`stitch_frame_lease_register` finds the core in the registry, lets go of the
registry and inserts the lease under the lock of the core;
`stitch_core_destroy` may look for leases and take the core out of the
registry in between.  In a run where no core leaves the registry while a
registration for it can still succeed, a core stays as long as its leases
(`leases_keep_core`); in one where some core does, a lease may be registered
that nobody can reach (`orphans_lease_orphanLabels`).
-/

namespace StitchEditor.Abi

open StitchEditor Fallible Run

/-! ## the registry -/

/-- A handle leads to the core. -/
def Process.Bound (self : Process) (entry : Nat) : Prop :=
  ∃ handle : UInt64, self.cores[handle]? = some entry

/-- What a transition does to the registry. -/
inductive Transition.AtRegistry (tr : Transition) : Prop where
  | keeps (hcores : tr.after.cores = tr.before.cores)
      (hlength : tr.after.heap.length = tr.before.heap.length)
  | creates {thread : ThreadId} {handle epoch : UInt64}
      (haction : tr.label.action = .advance thread)
      (hpc : (tr.before.threads thread).pc = some (.insertCore handle epoch))
      (hcores : tr.after.cores = tr.before.cores.insert handle tr.before.heap.length)
      (hheap : tr.after.heap = tr.before.heap ++ [⟨.default, epoch, ∅, thread⟩])
  | destroys {thread : ThreadId} {handle : UInt64} {entry : Nat} {core : CoreState}
      (haction : tr.label.action = .advance thread)
      (hpc : (tr.before.threads thread).pc = some (.destroy handle))
      (hbound : tr.before.cores[handle]? = some entry)
      (hcore : tr.before.heap[entry]? = some core) (howner : core.owner = thread)
      (hleases : core.leases = ∅) (hcores : tr.after.cores = tr.before.cores.erase handle)
      (hheap : tr.after.heap = tr.before.heap)

section Lifetime

variable [Sha256]

variable {p p' : Process} {tr : Transition} {trs : List Transition} {entry : Nat}
  {id handle handle' : UInt64}

theorem Transition.Joins.atRegistry (h : Transition.Joins p tr p') : tr.AtRegistry := by
  obtain ⟨before, label, after⟩ := tr
  obtain ⟨rfl, rfl, hstep⟩ := h
  have htakes : before.Takes label after := hstep.takes
  cases htakes with
  | reject _ _ | start _ _ | fail _ _ | endCallback _ => exact .keeps rfl rfl
  | run hpc hexecutes =>
      cases hexecutes with
      | insertCore => exact .creates rfl hpc rfl rfl
      | destroy hbound hcore howner hleases =>
          exact .destroys rfl hpc hbound hcore howner hleases rfl rfl
      | locked _ haccess =>
          exact .keeps haccess.cores ((congrArg List.length haccess.heap).trans List.length_set)
      | allocateCore | lookup _ | allocateDiff | insertDiff _ | counted _ _ => exact .keeps rfl rfl

/-- Each handle leads to a core of its own. -/
structure Process.Wired (p : Process) : Prop where
  lt : ∀ ⦃handle : UInt64⦄ ⦃entry : Nat⦄, p.cores[handle]? = some entry → entry < p.heap.length
  inj : ∀ ⦃handle handle' : UInt64⦄ ⦃entry : Nat⦄, p.cores[handle]? = some entry →
    p.cores[handle']? = some entry → handle = handle'

theorem Recorded.wired (hrun : Recorded trs p) : p.Wired := by
  refine hrun.invariant (I := fun _ p => p.Wired) ⟨by simp [Process.initial],
    by simp [Process.initial]⟩ ?_
  intro trs p tr p' _ h hjoins
  have hregistry := hjoins.atRegistry
  obtain ⟨rfl, rfl, -⟩ := hjoins
  cases hregistry with
  | keeps hcores hlength => exact ⟨by rw [hcores, hlength]; exact h.lt, by rw [hcores]; exact h.inj⟩
  | @creates thread handle epoch _ _ hcores hheap =>
      have hnew : ∀ ⦃found : UInt64⦄ ⦃entry : Nat⦄, tr.after.cores[found]? = some entry →
          (found = handle ∧ entry = tr.before.heap.length) ∨
            tr.before.cores[found]? = some entry := by
        intro found entry hbound
        rw [hcores] at hbound
        obtain ⟨hfound, hentry⟩ | ⟨-, hbound⟩ := Table.getElem?_insert_eq_some_iff.mp hbound
        · exact .inl ⟨hfound, hentry.symm⟩
        · exact .inr hbound
      refine ⟨fun found entry hbound => ?_, fun found found' entry hbound hbound' => ?_⟩
      · rw [hheap, List.length_append, List.length_singleton]
        obtain ⟨-, rfl⟩ | hbound := hnew hbound
        · omega
        · have := h.lt hbound
          omega
      · obtain ⟨rfl, hentry⟩ | hbound := hnew hbound
        · obtain ⟨rfl, -⟩ | hbound' := hnew hbound'
          · rfl
          · have := h.lt hbound'
            omega
        · obtain ⟨rfl, hentry⟩ | hbound' := hnew hbound'
          · have := h.lt hbound
            omega
          · exact h.inj hbound hbound'
  | destroys _ _ _ _ _ _ hcores hheap =>
      have hold : ∀ ⦃handle : UInt64⦄ ⦃entry : Nat⦄, tr.after.cores[handle]? = some entry →
          tr.before.cores[handle]? = some entry := by
        intro handle entry hbound
        rw [hcores] at hbound
        exact (Table.getElem?_erase_eq_some_iff.mp hbound).2
      exact ⟨fun handle entry hbound => hheap ▸ h.lt (hold hbound),
        fun handle handle' entry hbound hbound' => h.inj (hold hbound) (hold hbound')⟩

/-- An entry of the heap stays, and no handle comes to lead to it. -/
theorem Transition.Joins.keepsEntry (h : Transition.Joins p tr p') (hlt : entry < p.heap.length) :
    entry < p'.heap.length ∧
      ∀ handle : UInt64, p'.cores[handle]? = some entry → p.cores[handle]? = some entry := by
  have hregistry := h.atRegistry
  obtain ⟨rfl, rfl, -⟩ := h
  cases hregistry with
  | keeps hcores hlength =>
      rw [hcores, hlength]
      exact ⟨hlt, fun _ hbound => hbound⟩
  | creates _ _ hcores hheap =>
      refine ⟨by rw [hheap, List.length_append]; omega, fun handle hbound => ?_⟩
      rw [hcores] at hbound
      obtain ⟨-, rfl⟩ | ⟨-, hbound⟩ := Table.getElem?_insert_eq_some_iff.mp hbound
      · omega
      · exact hbound
  | destroys _ _ _ _ _ _ hcores hheap =>
      rw [hcores]
      exact ⟨hheap ▸ hlt, fun _ hbound => (Table.getElem?_erase_eq_some_iff.mp hbound).2⟩

/-- A core never comes back to the registry. -/
theorem Transition.Joins.unbound (h : Transition.Joins p tr p') (hlt : entry < p.heap.length)
    (hunbound : ¬ p.Bound entry) : entry < p'.heap.length ∧ ¬ p'.Bound entry := by
  obtain ⟨hlt', hbefore⟩ := h.keepsEntry hlt
  exact ⟨hlt', fun ⟨handle, hbound⟩ => hunbound ⟨handle, hbefore handle hbound⟩⟩

theorem unbound_of_runs (hrun : Runs Transition.Joins p trs p') (hlt : entry < p.heap.length)
    (hunbound : ¬ p.Bound entry) : entry < p'.heap.length ∧ ¬ p'.Bound entry :=
  hrun.invariant (I := fun p => entry < p.heap.length ∧ ¬ p.Bound entry) ⟨hlt, hunbound⟩
    fun h hjoins => hjoins.unbound h.1 h.2

/-! ## no more registrations -/

/-- The access changes the epoch or the revision. -/
def Access.Edits : Access → Prop
  | .setEpoch _ => True
  | .submit _ _ => True
  | _ => False

/-- Only the owner of a core edits it. -/
theorem CoreState.Serves.edits {core core' : CoreState} {thread : ThreadId} {fresh : UInt64}
    {access : Access} {progress : Progress}
    (h : core.Serves thread fresh access core' progress) :
    (access.Edits ∧ core.owner = thread) ∨
      (core'.epoch = core.epoch ∧ core'.history = core.history) := by
  cases h with
  | setEpoch hset => exact .inl ⟨trivial, (setEpoch_eq_ok_iff.mp hset).1⟩
  | submit hsubmit =>
      simp only [CoreState.submit, bind_eq_ok_iff, refuse_eq_ok_iff, not_not] at hsubmit
      obtain ⟨_, howner, -⟩ := hsubmit
      exact .inl ⟨trivial, howner⟩
  | transition htransition | retire htransition =>
      obtain ⟨_, -, -, rfl⟩ := leaseTransition_eq_ok_iff.mp htransition
      exact .inr ⟨rfl, rfl⟩
  | discard hdiscard =>
      obtain rfl := discard_eq_ok hdiscard
      exact .inr ⟨rfl, rfl⟩
  | register _ | remove | snapshot | metadataGet _ | checkAcquire _ | checkSubmit _ =>
      exact .inr ⟨rfl, rfl⟩

omit [Sha256] in
theorem CoreState.checkRegister_congr {core core' : CoreState} {metadata : StitchFrameMetadata}
    (hepoch : core'.epoch = core.epoch) (hhistory : core'.history = core.history) :
    core'.checkRegister metadata = .ok () ↔ core.checkRegister metadata = .ok () := by
  simp only [checkRegister_eq_ok_iff, revision, hepoch, hhistory]

omit [Sha256] in
theorem Pc.ne_locked_of_start {call : Call} {inCallback : Bool} {access : Access}
    (h : call.start inCallback = .ok (.locked entry access)) : False := by
  cases call <;> simp only [Call.start, bind_eq_ok_iff, pure_eq_ok_iff] at h <;> grind

/-- A thread comes under the lock of a core through the registry only. -/
theorem Transition.Reaches.locked {thread : ThreadId} {access : Access}
    (h : tr.Reaches thread (.locked entry access)) :
    (thread ≠ tr.label.action.thread ∧
      (tr.before.threads thread).pc = some (.locked entry access)) ∨
      ∃ handle, tr.label.action = .advance thread ∧
        (tr.before.threads thread).pc = some (.lookup handle access) ∧
        tr.before.cores[handle]? = some entry := by
  cases h with
  | stays hne hpc => exact .inl ⟨hne, hpc⟩
  | starts _ hstart => exact (Pc.ne_locked_of_start hstart).elim
  | goes haction hpc₀ hexecutes _ =>
      cases hexecutes with
      | lookup hbound => exact .inr ⟨_, haction, hpc₀, hbound⟩
      | locked _ haccess => cases haccess.serves
      | insertDiff hprogress => split at hprogress <;> cases hprogress

/-- The core has no leases, and no registration for it can succeed any
more. -/
structure Process.Spent (p : Process) (entry : Nat) : Prop where
  leases : ∀ ⦃core⦄, p.heap[entry]? = some core → core.leases = ∅
  registers : ∀ ⦃core thread metadata⦄, p.heap[entry]? = some core →
    (p.threads thread).pc = some (.locked entry (.register metadata)) →
    core.checkRegister metadata ≠ .ok () ∧
      ∀ access, (p.threads core.owner).pc = some (.locked entry access) → ¬ access.Edits

/-- Nothing brings a core back into use that no thread looks up. -/
theorem Process.Spent.joins (h : p.Spent entry) (hjoins : Transition.Joins p tr p')
    (hlt : entry < p.heap.length)
    (hlookup : ∀ thread handle access, tr.label.action = .advance thread →
      (p.threads thread).pc = some (.lookup handle access) → p.cores[handle]? ≠ some entry) :
    p'.Spent entry := by
  have hon := hjoins.on entry
  have hlocked : ∀ {thread access}, (p'.threads thread).pc = some (.locked entry access) →
      (p.threads thread).pc = some (.locked entry access) := by
    intro thread access hpc
    have hreaches := hjoins.reaches hpc
    rw [← hjoins.before] at hlookup ⊢
    obtain ⟨-, hpc⟩ | ⟨handle, haction, hpc, hbound⟩ := hreaches.locked
    · exact hpc
    · exact absurd hbound (hlookup thread handle access haction hpc)
  obtain ⟨rfl, rfl, -⟩ := hjoins
  have hcore := List.getElem?_eq_getElem hlt
  generalize tr.before.heap[entry] = core at hcore
  obtain ⟨other, access, core₁, progress, hserves⟩ | ⟨-, hsame⟩ := hon.of_found hcore
  · have hempty := h.leases hcore
    have hafter : ∀ {core'}, tr.after.heap[entry]? = some core' → core' = core₁ :=
      fun hcore' => Option.some.inj (hcore'.symm.trans hserves.after)
    have howner := hserves.serves.owner_epoch.1
    refine ⟨fun core' hcore' => ?_, fun core' thread metadata hcore' hpc => ?_⟩
    · obtain rfl := hafter hcore'
      refine Std.ExtTreeMap.ext_getElem? fun id => ?_
      have hmoves := hserves.serves.moves id
      have hnone : core.leases[id]? = none := by simp [hempty]
      rw [Std.ExtTreeMap.getElem?_empty]
      generalize core.leases[id]? = old at hmoves hnone
      generalize core'.leases[id]? = new at hmoves
      cases hmoves with
      | keeps => exact hnone
      | @registers metadata _ _ =>
          cases hserves.serves with
          | register hcheck => exact absurd hcheck (h.registers hcore hserves.pc).1
      | transitions _ _ _ => cases hnone
      | discards _ _ _ | removes => rfl
    · obtain rfl := hafter hcore'
      obtain ⟨hstale, hquiet⟩ := h.registers hcore (hlocked hpc)
      obtain ⟨hedits, hother⟩ | ⟨hepoch, hhistory⟩ := hserves.serves.edits
      · exact absurd hedits (hquiet access (hother ▸ hserves.pc))
      · rw [howner]
        exact ⟨(CoreState.checkRegister_congr hepoch hhistory).not.mpr hstale,
          fun access' hpc' => hquiet access' (hlocked hpc')⟩
  · rw [← hcore] at hsame
    refine ⟨fun core' hcore' => h.leases (hsame ▸ hcore'),
      fun core' thread metadata hcore' hpc => ?_⟩
    obtain ⟨hstale, hquiet⟩ := h.registers (hsame ▸ hcore') (hlocked hpc)
    exact ⟨hstale, fun access' hpc' => hquiet access' (hlocked hpc')⟩

/-! ## careful runs -/

/-- The action takes the core of the entry out of the registry: it destroys
the core, or gives its handle to a new one. -/
def Process.Drops (p : Process) (action : Action) (entry : Nat) : Prop :=
  ∃ thread handle, action = .advance thread ∧ p.cores[handle]? = some entry ∧
    (((p.threads thread).pc = some (.destroy handle) ∧
        ∃ core, p.heap[entry]? = some core ∧ core.owner = thread ∧ core.leases = ∅) ∨
      ∃ epoch, (p.threads thread).pc = some (.insertCore handle epoch))

/-- A core leaves the registry when no registration for it can succeed any
more. -/
def Process.Careful (p : Process) (action : Action) : Prop :=
  ∀ ⦃entry⦄, p.Drops action entry → p.Spent entry

/-- **In a careful run a core outside the registry is spent.** -/
theorem Recorded.spent (hrun : Recorded trs p)
    (hcareful : ∀ tr ∈ trs, tr.before.Careful tr.label.action) (hlt : entry < p.heap.length)
    (hunbound : ¬ p.Bound entry) : p.Spent entry := by
  refine hrun.invariant (I := fun trs p => (∀ tr ∈ trs, tr.before.Careful tr.label.action) →
    ∀ entry, entry < p.heap.length → ¬ p.Bound entry → p.Spent entry)
    (fun _ _ hlt => by simp [Process.initial] at hlt) ?_ hcareful entry hlt hunbound
  intro trs p tr p' hrun ih hjoins hcareful entry hlt hunbound
  have ih := ih fun tr htr => hcareful tr (List.mem_append_left _ htr)
  have hcareful := hcareful tr (by simp)
  have hregistry := hjoins.atRegistry
  have hjoined := hjoins
  obtain ⟨rfl, rfl, -⟩ := hjoined
  -- a core that has left before
  have hbefore : entry < tr.before.heap.length → ¬ tr.before.Bound entry → tr.after.Spent entry :=
    fun hlt hunbound => (ih entry hlt hunbound).joins hjoins hlt
      fun _ handle _ _ _ hbound => hunbound ⟨handle, hbound⟩
  cases hregistry with
  | keeps hcores hlength =>
      refine hbefore (hlength ▸ hlt) fun ⟨handle, hbound⟩ => hunbound ⟨handle, ?_⟩
      rwa [hcores]
  | @creates thread handle epoch haction hpc hcores hheap =>
      have hne : entry ≠ tr.before.heap.length := by
        rintro rfl
        refine hunbound ⟨handle, ?_⟩
        rw [hcores]
        exact Std.ExtTreeMap.getElem?_insert_self
      have hlt : entry < tr.before.heap.length := by
        rw [hheap, List.length_append, List.length_singleton] at hlt
        omega
      by_cases hbound : tr.before.cores[handle]? = some entry
      · -- the handle of this core has gone to the new one
        refine (hcareful ⟨thread, handle, haction, hbound, .inr ⟨epoch, hpc⟩⟩).joins hjoins hlt ?_
        intro other _ _ haction' hpc'
        rw [Action.advance.inj (haction.symm.trans haction'), hpc'] at hpc
        cases hpc
      · refine hbefore hlt fun ⟨found, hfound⟩ => hunbound ⟨found, ?_⟩
        rw [hcores]
        refine Table.getElem?_insert_eq_some_iff.mpr (.inr ⟨?_, hfound⟩)
        rintro rfl
        exact hbound hfound
  | @destroys thread handle entry' core haction hpc hbound hcore howner hleases hcores hheap =>
      rw [hheap] at hlt
      by_cases hentry : entry' = entry
      · subst hentry
        refine (hcareful ⟨thread, handle, haction, hbound, .inl ⟨hpc, core, hcore, howner,
          hleases⟩⟩).joins hjoins hlt ?_
        intro other _ _ haction' hpc'
        rw [Action.advance.inj (haction.symm.trans haction'), hpc'] at hpc
        cases hpc
      · refine hbefore hlt fun ⟨found, hfound⟩ => hunbound ⟨found, ?_⟩
        rw [hcores]
        refine Table.getElem?_erase_eq_some_iff.mpr ⟨?_, hfound⟩
        rintro rfl
        exact hentry (Option.some.inj (hbound.symm.trans hfound))

/-! ## outstanding leases -/

/-- The lease is discarded, or removed at the end of its retirement. -/
def Transition.Ends (tr : Transition) (entry : Nat) (id : UInt64) : Prop :=
  ∃ thread, tr.label = ⟨.advance thread, some (.ok, .none)⟩ ∧
    ((∃ device, (tr.before.threads thread).pc = some (.locked entry (.discard id device))) ∨
      (tr.before.threads thread).pc = some (.locked entry (.remove id)))

/-- The id was returned by a registration for the core, and its lease has
not ended since. -/
def Outstanding (trs : List Transition) (entry : Nat) (id : UInt64) : Prop :=
  ∃ front tr mid, trs = front ++ tr :: mid ∧ tr.Registers entry id ∧
    ∀ tr' ∈ mid, ¬ tr'.Ends entry id

/-- The core of the entry is destroyed. -/
def Transition.Destroys (tr : Transition) (entry : Nat) : Prop :=
  ∃ thread handle, tr.label = ⟨.advance thread, some (.ok, .none)⟩ ∧
    (tr.before.threads thread).pc = some (.destroy handle) ∧ tr.before.cores[handle]? = some entry

/-- A lease stays until it ends. -/
theorem Transition.Joins.ends (hjoins : Transition.Joins p tr p') {lease : Lease}
    (hlease : p.leaseAt entry id = some lease) (hends : ¬ tr.Ends entry id) :
    ∃ lease', p'.leaseAt entry id = some lease' := by
  obtain ⟨core, hcore, hfound⟩ := Process.leaseAt_eq_some_iff.mp hlease
  have hon := hjoins.on entry
  obtain ⟨rfl, rfl, -⟩ := hjoins
  obtain ⟨thread, access, core', progress, hserves⟩ | ⟨-, hsame⟩ := hon.of_found hcore
  · have hmoves := hserves.serves.moves id
    have hafter : ∀ {lease'}, core'.leases[id]? = some lease' →
        ∃ lease', tr.after.leaseAt entry id = some lease' :=
      fun hlease' => ⟨_, Process.leaseAt_eq_some_iff.mpr ⟨core', hserves.after, hlease'⟩⟩
    generalize core.leases[id]? = old at hmoves hfound
    generalize core'.leases[id]? = new at hmoves hafter
    cases hmoves with
    | keeps => exact hafter hfound
    | registers _ | transitions _ _ _ => exact hafter rfl
    | @discards device _ _ _ _ =>
        refine absurd ⟨thread, ?_, .inl ⟨device, hserves.pc⟩⟩ hends
        rw [hserves.label]
        cases hserves.serves
        rfl
    | removes =>
        refine absurd ⟨thread, ?_, .inr hserves.pc⟩ hends
        rw [hserves.label]
        cases hserves.serves
        rfl
  · exact ⟨lease, Process.leaseAt_eq_some_iff.mpr ⟨core, hsame, hfound⟩⟩

theorem exists_leaseAt_of_runs (hrun : Runs Transition.Joins p trs p') {lease : Lease}
    (hlease : p.leaseAt entry id = some lease) (hends : ∀ tr ∈ trs, ¬ tr.Ends entry id) :
    ∃ lease', p'.leaseAt entry id = some lease' := by
  induction hrun with
  | nil => exact ⟨lease, hlease⟩
  | @snoc trs _ _ tr _ hjoins ih =>
      obtain ⟨lease', hlease'⟩ := ih fun tr htr => hends tr (List.mem_append_left _ htr)
      exact hjoins.ends hlease' (hends tr (by simp))

/-- **An outstanding lease is in its core.** -/
theorem Outstanding.leaseAt (h : Outstanding trs entry id) (hrun : Recorded trs p) :
    ∃ lease, p.leaseAt entry id = some lease := by
  obtain ⟨front, tr, mid, rfl, hregisters, hends⟩ := h
  obtain ⟨-, hjoins, hmid⟩ := hrun.split
  obtain ⟨-, -, lease, hlease⟩ := hregisters.eq_freshHandle hjoins
  exact exists_leaseAt_of_runs hmid hlease hends

/-- **No lease outlives its core.** -/
structure LeasesKeepCore (trs : List Transition) (p : Process) : Prop where
  /-- The core of an outstanding lease is in the registry, and the lease in
  the core. -/
  bound : ∀ ⦃entry id⦄, Outstanding trs entry id →
    p.Bound entry ∧ ∃ lease, p.leaseAt entry id = some lease
  /-- A core that is destroyed has no outstanding lease, and gets none. -/
  destroyed : ∀ ⦃front back tr entry⦄, trs = front ++ tr :: back → tr.Destroys entry →
    (∀ id, ¬ Outstanding front entry id) ∧ ∀ tr' ∈ back, ∀ id, ¬ tr'.Registers entry id

omit [Sha256] in
theorem Process.Spent.leaseAt (h : p.Spent entry) (id : UInt64) : p.leaseAt entry id = none := by
  rw [Option.eq_none_iff_forall_ne_some]
  intro lease hlease
  obtain ⟨core, hcore, hfound⟩ := Process.leaseAt_eq_some_iff.mp hlease
  simp [h.leases hcore] at hfound

/-- A core that is destroyed is idle, and leaves the registry. -/
theorem Transition.Destroys.of_joins (h : tr.Destroys entry) (hjoins : Transition.Joins p tr p')
    (hwired : p.Wired) : ∃ core, p.heap[entry]? = some core ∧ core.leases = ∅ ∧
      (∃ handle, (p.threads core.owner).pc = some (.destroy handle)) ∧
      core.owner = tr.label.action.thread ∧ p'.heap = p.heap ∧ ¬ p'.Bound entry := by
  obtain ⟨thread, handle, hlabel, hpc, hbound⟩ := h
  obtain ⟨before, label, after⟩ := tr
  obtain ⟨rfl, rfl, hstep⟩ := hjoins
  obtain rfl : label = _ := hlabel
  have htakes : before.Takes _ after := hstep.takes
  generalize hreturned : some (StitchResult.ok, Output.none) = returned at htakes
  cases htakes with
  | fail hpc' hexec =>
      obtain rfl := Option.some.inj (hpc.symm.trans hpc')
      cases hreturned
      exact absurd rfl (before.raises_exec thread _ _ hexec).1
  | run hpc' hexecutes =>
      obtain rfl := Option.some.inj (hpc.symm.trans hpc')
      cases hexecutes with
      | counted htables => cases htables
      | destroy hbound' hcore howner hleases =>
          obtain rfl := Option.some.inj (hbound.symm.trans hbound')
          refine ⟨_, hcore, hleases, ⟨handle, howner ▸ hpc⟩, howner, rfl, fun ⟨found, hfound⟩ => ?_⟩
          obtain ⟨hne, hfound⟩ := Table.getElem?_erase_eq_some_iff.mp hfound
          exact hne (hwired.inj hfound hbound)

/-- **No lease outlives its core in a careful run.** -/
theorem leases_keep_core (hrun : Recorded trs p)
    (hcareful : ∀ tr ∈ trs, tr.before.Careful tr.label.action) : LeasesKeepCore trs p := by
  refine ⟨fun entry id houtstanding => ?_, fun front back tr entry htrs hdestroys => ?_⟩
  · obtain ⟨lease, hlease⟩ := houtstanding.leaseAt hrun
    refine ⟨by_contra fun hunbound => ?_, lease, hlease⟩
    obtain ⟨core, hcore, -⟩ := Process.leaseAt_eq_some_iff.mp hlease
    have hlt := (List.getElem?_eq_some_iff.mp hcore).1
    rw [(hrun.spent hcareful hlt hunbound).leaseAt id] at hlease
    cases hlease
  · subst htrs
    obtain ⟨hfront, hjoins, hback⟩ := hrun.split
    obtain ⟨core, hcore, hempty, -, -, hheap, hunbound⟩ := hdestroys.of_joins hjoins hfront.wired
    have hlt : entry < tr.after.heap.length := hheap ▸ (List.getElem?_eq_some_iff.mp hcore).1
    refine ⟨fun id houtstanding => ?_, fun tr' htr' id hregisters => ?_⟩
    · obtain ⟨lease, hlease⟩ := houtstanding.leaseAt hfront
      obtain ⟨core', hcore', hfound⟩ := Process.leaseAt_eq_some_iff.mp hlease
      obtain rfl := Option.some.inj (hcore.symm.trans hcore')
      simp [hempty] at hfound
    · obtain ⟨early, late, rfl⟩ := List.append_of_mem htr'
      obtain ⟨q, hearly, hlate⟩ := Runs.append_iff.mp hback
      obtain ⟨q', hjoins', -⟩ := Runs.cons_iff.mp hlate
      have hmore : Runs Transition.Joins tr.after (early ++ [tr']) q' := .snoc hearly hjoins'
      have hthere : Recorded (front ++ tr :: (early ++ [tr'])) q' :=
        hfront.append (.cons hjoins hmore)
      obtain ⟨hlt', hunbound'⟩ := unbound_of_runs hmore hlt hunbound
      have hspent := hthere.spent (fun tr₁ htr₁ => hcareful tr₁ (by
        simp only [List.mem_append, List.mem_cons, List.not_mem_nil, or_false] at htr₁ ⊢
        tauto)) hlt' hunbound'
      obtain ⟨-, -, lease, hlease⟩ := hregisters.eq_freshHandle hjoins'
      rw [hjoins'.after, hspent.leaseAt id] at hlease
      cases hlease

/-- **The condition is needed**: when a core is destroyed while a registration
for it can succeed, the next step of that thread registers a lease that
outlives the core. -/
theorem Transition.Destroys.orphans (h : tr.Destroys entry) (hrun : Recorded trs p)
    (hjoins : Transition.Joins p tr p') (hcareless : ¬ p.Spent entry) :
    ∃ tr' p'', Transition.Joins p' tr' p'' ∧ ¬ LeasesKeepCore (trs ++ [tr, tr']) p'' := by
  obtain ⟨core, hcore, hleases, ⟨handle, hdestroy⟩, howner, hheap, -⟩ :=
    h.of_joins hjoins hrun.wired
  have hfound : ∀ {core'}, p.heap[entry]? = some core' → core' = core :=
    fun hcore' => Option.some.inj (hcore'.symm.trans hcore)
  obtain ⟨other, metadata, hpc, hcheck⟩ : ∃ other metadata,
      (p.threads other).pc = some (.locked entry (.register metadata)) ∧
        core.checkRegister metadata = .ok () := by
    by_contra hnone
    push Not at hnone
    refine hcareless ⟨fun core' hcore' => hfound hcore' ▸ hleases, fun core' _ _ hcore' hpc => ?_⟩
    obtain rfl := hfound hcore'
    refine ⟨hnone _ _ hpc, fun access hlocked => ?_⟩
    rw [hdestroy] at hlocked
    cases hlocked
  have hne : other ≠ tr.label.action.thread := by
    rintro rfl
    rw [← howner, hdestroy] at hpc
    cases hpc
  rw [← hjoins.threads_ne hne] at hpc
  rw [← hheap] at hcore
  have hexec : p'.exec other (.locked entry (.register metadata)) =
      .ok (p'.bump.setCore entry (core.insertLease other p'.freshHandle metadata),
        .finished .ok (.handle p'.freshHandle)) := by
    simp only [Process.exec, hcore, Process.access, hcheck]
    rfl
  have hstep := Process.Step.of_exec hpc hexec
  refine ⟨⟨p', _, _⟩, _, ⟨rfl, rfl, hstep⟩, fun hkeep => ?_⟩
  exact (hkeep.destroyed rfl h).2 _ (List.mem_singleton_self _) p'.freshHandle
    ⟨other, metadata, rfl, hpc⟩

/-- A thread that never acts runs no section. -/
theorem Recorded.idle (hrun : Recorded trs p) {thread : ThreadId}
    (hidle : ∀ tr ∈ trs, tr.label.action.thread ≠ thread) : (p.threads thread).pc = none := by
  refine hrun.invariant (I := fun trs p => (∀ tr ∈ trs, tr.label.action.thread ≠ thread) →
    (p.threads thread).pc = none) (fun _ => rfl) ?_ hidle
  intro trs p tr p' _ ih hjoins hidle
  rw [hjoins.threads_ne (Ne.symm (hidle tr (by simp)))]
  exact ih fun tr htr => hidle tr (List.mem_append_left _ htr)

/-- The thread edits the core next. -/
def Pc.edits (entry : Nat) : Pc → Bool
  | .locked entry' (.setEpoch _) | .locked entry' (.submit _ _) => entry' == entry
  | _ => false

/-- The thread is about to register a frame that the core takes, or may take
once its owner has edited it. -/
def CoreState.awaits (self : CoreState) (entry : Nat) (owner waiting : Option Pc) : Bool :=
  match waiting with
  | some (.locked entry' (.register metadata)) =>
      entry' == entry &&
        (self.checkRegister metadata == .ok () || owner.any (Pc.edits entry))
  | _ => false

/-- `Process.Spent`, where only these threads are in a call. -/
def Process.spentAmong (self : Process) (threads : List ThreadId) (entry : Nat) : Bool :=
  self.heap[entry]?.all fun core => core.leases.isEmpty &&
    threads.all fun thread =>
      !core.awaits entry (self.threads core.owner).pc (self.threads thread).pc

/-- `Process.Careful`, where only these threads are in a call. -/
def Process.carefulAmong (self : Process) (threads : List ThreadId) : Action → Bool
  | .advance thread =>
      match (self.threads thread).pc with
      | some (.destroy handle) | some (.insertCore handle _) =>
          self.cores[handle]?.all (self.spentAmong threads)
      | _ => true
  | _ => true

omit [Sha256] in
theorem Process.spent_of_among {threads : List ThreadId}
    (hidle : ∀ thread, thread ∉ threads → (p.threads thread).pc = none)
    (hspent : p.spentAmong threads entry) : p.Spent entry := by
  have hcheck : ∀ {core}, p.heap[entry]? = some core → core.leases = ∅ ∧ ∀ thread ∈ threads,
      core.awaits entry (p.threads core.owner).pc (p.threads thread).pc = false := by
    intro core hcore
    simpa [spentAmong, hcore] using hspent
  constructor
  · exact fun core hcore => (hcheck hcore).1
  · intro core thread metadata hcore hpc
    have hmem : thread ∈ threads := by
      by_contra hnot
      rw [hidle thread hnot] at hpc
      cases hpc
    have hawaits := (hcheck hcore).2 thread hmem
    simp only [CoreState.awaits, hpc, beq_self_eq_true, Bool.true_and, Bool.or_eq_false_iff,
      beq_eq_false_iff_ne] at hawaits
    refine ⟨hawaits.1, fun access howner hedits => ?_⟩
    rw [howner] at hawaits
    cases access <;> simp_all [Pc.edits, Access.Edits]

/-- A run of a few threads is careful, if it passes the check. -/
theorem Recorded.careful (hrun : Recorded trs p) {threads : List ThreadId}
    (hthreads : ∀ tr ∈ trs, tr.label.action.thread ∈ threads)
    (hcheck : ∀ tr ∈ trs, tr.before.carefulAmong threads tr.label.action) :
    ∀ tr ∈ trs, tr.before.Careful tr.label.action := by
  intro tr htr entry ⟨thread, handle, haction, hbound, hdrops⟩
  obtain ⟨front, back, rfl⟩ := List.append_of_mem htr
  obtain ⟨hfront, -, -⟩ := hrun.split
  have hidle (thread : ThreadId) (hthread : thread ∉ threads) :
      (tr.before.threads thread).pc = none :=
    hfront.idle fun tr htr heq => hthread (heq ▸ hthreads tr (List.mem_append_left _ htr))
  have hcheck := hcheck tr htr
  refine Process.spent_of_among hidle ?_
  obtain ⟨hpc, -⟩ | ⟨epoch, hpc⟩ := hdrops <;>
    simpa [Process.carefulAmong, haction, hpc, hbound] using hcheck

end Lifetime

section Schedule

/-! ## schedules -/

/-- The owner 0 creates the core 1, and thread 1 registers the frame 2 and
discards it.  Thread 1 has found the core for another frame when the owner sets
the epoch and destroys the core, so that the frame is refused. -/
def idleLabels : List Label :=
  [.pending (.begin 0 (.coreCreate (some ⟨header coreConfigSize, 0⟩) true)),
    .pending (.advance 0),
    ⟨.advance 0, some (.ok, .handle 1)⟩,
    .pending (.begin 1 (.frameLeaseRegister 1 (some frame) true)),
    .pending (.advance 1),
    ⟨.advance 1, some (.ok, .handle 2)⟩,
    .pending (.begin 1 (.frameLeaseDiscard 1 2 1)),
    .pending (.advance 1),
    ⟨.advance 1, some (.ok, .none)⟩,
    .pending (.begin 1 (.frameLeaseRegister 1 (some frame) true)),
    .pending (.advance 1),
    .pending (.begin 0 (.coreSetEpoch 1 1)),
    .pending (.advance 0),
    ⟨.advance 0, some (.ok, .none)⟩,
    .pending (.begin 0 (.coreDestroy 1)),
    ⟨.advance 0, some (.ok, .none)⟩,
    ⟨.advance 1, some (.staleEpoch, .none)⟩]

theorem isSome_idleLabels :
    letI := firstTrackSha256
    (Process.initial.recorded idleLabels).isSome := by
  decide +kernel

/-- The process after the core is gone. -/
def idled : List Transition × Process :=
  letI := firstTrackSha256
  (Process.initial.recorded idleLabels).get isSome_idleLabels

theorem leases_keep_core_idleLabels :
    letI := firstTrackSha256
    idled.1.map Transition.label = idleLabels ∧ LeasesKeepCore idled.1 idled.2 := by
  let _ := firstTrackSha256
  have hrun : Recorded idled.1 idled.2 :=
    Process.runs_of_recorded (Option.some_get isSome_idleLabels).symm
  have hlabels : idled.1.map Transition.label = idleLabels := rfl
  have hthreads : ∀ tr ∈ idled.1, tr.label.action.thread ∈ [0, 1] := by
    decide +kernel
  have hcheck : ∀ tr ∈ idled.1, tr.before.carefulAmong [0, 1] tr.label.action := by
    decide +kernel
  exact ⟨hlabels, leases_keep_core hrun (hrun.careful hthreads hcheck)⟩

/-- Thread 1 finds the core 1 to register a frame; thread 0 destroys the core
before thread 1 goes on. -/
def orphanLabels : List Label :=
  [.pending (.begin 0 (.coreCreate (some ⟨header coreConfigSize, 0⟩) true)),
    .pending (.advance 0),
    ⟨.advance 0, some (.ok, .handle 1)⟩,
    .pending (.begin 1 (.frameLeaseRegister 1 (some frame) true)),
    .pending (.advance 1),
    .pending (.begin 0 (.coreDestroy 1)),
    ⟨.advance 0, some (.ok, .none)⟩]

/-- The lease is registered. -/
def orphanLabel : Label := ⟨.advance 1, some (.ok, .handle 2)⟩

theorem isSome_orphanLabels :
    letI := firstTrackSha256
    (Process.initial.recorded orphanLabels).isSome := by
  decide +kernel

/-- The process before the registration. -/
def destroyed : List Transition × Process :=
  letI := firstTrackSha256
  (Process.initial.recorded orphanLabels).get isSome_orphanLabels

theorem isSome_orphanLabel :
    letI := firstTrackSha256
    (destroyed.2.replay orphanLabel).isSome := by
  decide +kernel

/-- The process after it. -/
def orphaned : Process :=
  letI := firstTrackSha256
  (destroyed.2.replay orphanLabel).get isSome_orphanLabel

theorem labels_destroyed : destroyed.1.map Transition.label = orphanLabels := rfl

theorem orphans_lease_orphanLabels :
    letI := firstTrackSha256
    ∃ trs p, Recorded trs p ∧ trs.map Transition.label = orphanLabels ++ [orphanLabel] ∧
      ¬ LeasesKeepCore trs p := by
  let _ := firstTrackSha256
  have hrun : Recorded destroyed.1 destroyed.2 :=
    Process.runs_of_recorded (Option.some_get isSome_orphanLabels).symm
  have hstep : destroyed.2.Step orphanLabel orphaned :=
    Process.step_of_replay (Option.some_get isSome_orphanLabel).symm
  have hempty : orphaned.cores = ∅ :=
    Table.eq_empty_of_size_eq_zero (by decide +kernel)
  refine ⟨destroyed.1 ++ [⟨destroyed.2, orphanLabel, orphaned⟩], orphaned,
    .snoc hrun ⟨rfl, rfl, hstep⟩, by rw [List.map_append, labels_destroyed]; rfl, fun hkeep => ?_⟩
  have hpc : (destroyed.2.threads 1).pc = some (.locked 0 (.register frame)) := by decide +kernel
  have hregisters : Transition.Registers ⟨destroyed.2, orphanLabel, orphaned⟩ 0 2 :=
    ⟨1, frame, rfl, hpc⟩
  have houtstanding : Outstanding (destroyed.1 ++ [⟨destroyed.2, orphanLabel, orphaned⟩]) 0 2 :=
    ⟨destroyed.1, ⟨destroyed.2, orphanLabel, orphaned⟩, [], rfl, hregisters,
      List.forall_mem_nil _⟩
  obtain ⟨⟨handle, hbound⟩, -⟩ := hkeep.bound houtstanding
  simp [hempty] at hbound

end Schedule

end StitchEditor.Abi
