import Mathlib
import StitchEditor.Lib.Run
import StitchEditor.Abi.Sections

/-!
# StitchEditor.Abi.Record

Runs with the states along the way.

Claims about what happened before or comes later speak of the transitions
of a run.  For the core of one entry a transition is a section under its
lock, its creation, or none of its business (`Transition.Joins.on_entry`).
-/

namespace StitchEditor.Abi

open StitchEditor Fallible Run

/-- A step with the states before and after it. -/
structure Transition where
  before : Process
  label : Label
  after : Process

section Record

variable [Sha256]

/-- The transition leads from one state to the other. -/
structure Transition.Joins (p : Process) (tr : Transition) (p' : Process) : Prop where
  before : tr.before = p
  after : tr.after = p'
  step : p.Step tr.label p'

/-- A run from the initial state, as the list of its transitions. -/
def Recorded (trs : List Transition) (p : Process) : Prop :=
  Runs Transition.Joins Process.initial trs p

/-- Every run can be recorded. -/
theorem exists_recorded {labels : List Label} {p : Process}
    (hrun : Runs Process.Step Process.initial labels p) :
    ∃ trs, Recorded trs p ∧ trs.map Transition.label = labels := by
  induction hrun with
  | nil => exact ⟨[], .nil, rfl⟩
  | @snoc labels p p' label _ hstep ih =>
      obtain ⟨trs, hrun, rfl⟩ := ih
      exact ⟨trs ++ [⟨p, label, p'⟩], .snoc hrun ⟨rfl, rfl, hstep⟩, by simp⟩

namespace Recorded

variable {trs : List Transition} {p : Process}

/-- What one more transition keeps holds along every run. -/
theorem invariant {I : List Transition → Process → Prop} (hrun : Recorded trs p)
    (hstart : I [] Process.initial)
    (hstep : ∀ ⦃trs p tr p'⦄, Recorded trs p → I trs p → Transition.Joins p tr p' →
      I (trs ++ [tr]) p') : I trs p := by
  unfold Recorded at hrun
  induction hrun with
  | nil => exact hstart
  | snoc hrun hjoins ih => exact hstep hrun ih hjoins

/-- The part of a run up to a transition, and the transition. -/
theorem split {front back : List Transition} {tr : Transition}
    (hrun : Recorded (front ++ tr :: back) p) :
    Recorded front tr.before ∧ Transition.Joins tr.before tr tr.after ∧
      Runs Transition.Joins tr.after back p := by
  obtain ⟨q, hfront, hrest⟩ := Runs.append_iff.mp hrun
  obtain ⟨r, hjoins, hback⟩ := Runs.cons_iff.mp hrest
  obtain ⟨rfl, rfl, -⟩ := id hjoins
  exact ⟨hfront, hjoins, hback⟩

end Recorded

/-! ## sections under a lock -/

/-- The thread runs a section under the lock of the entry's core. -/
structure Transition.Serves (tr : Transition) (entry : Nat) (thread : ThreadId) (access : Access)
    (core core' : CoreState) (progress : Progress) : Prop where
  label : tr.label = ⟨.advance thread, progress.returned⟩
  pc : (tr.before.threads thread).pc = some (.locked entry access)
  found : tr.before.heap[entry]? = some core
  serves : core.Serves thread tr.before.freshHandle access core' progress
  heap : tr.after.heap = tr.before.heap.set entry core'
  cores : tr.after.cores = tr.before.cores
  diffs : tr.after.diffs = tr.before.diffs
  nextHandle : tr.after.nextHandle =
    if access.allocates then tr.before.nextHandle + 1 else tr.before.nextHandle
  threads : tr.after.threads =
    Function.update tr.before.threads thread (progress.leaves (tr.before.threads thread))

/-- No section under the lock of the entry's core succeeds. -/
def Transition.Spares (tr : Transition) (entry : Nat) : Prop :=
  ∀ ⦃thread access⦄, tr.label.action = .advance thread →
    (tr.before.threads thread).pc = some (.locked entry access) →
    (tr.after.threads thread).pc = none ∧ ∃ error, tr.label.returned = some (error, .none)

/-- What a transition does to one core. -/
inductive Transition.On (tr : Transition) (entry : Nat) : Prop where
  | serves {thread : ThreadId} {access : Access} {core core' : CoreState} {progress : Progress}
      (h : tr.Serves entry thread access core core' progress)
  | creates {thread : ThreadId} {epoch : UInt64} (hspares : tr.Spares entry)
      (hbefore : tr.before.heap[entry]? = none)
      (hafter : tr.after.heap[entry]? = some ⟨.default, epoch, ∅, thread⟩)
  | keeps (hspares : tr.Spares entry) (hheap : tr.after.heap[entry]? = tr.before.heap[entry]?)

namespace Transition

variable {tr : Transition} {entry : Nat} {p p' : Process}

theorem Serves.after {thread : ThreadId} {access : Access} {core core' : CoreState}
    {progress : Progress} (h : tr.Serves entry thread access core core' progress) :
    tr.after.heap[entry]? = some core' := by
  rw [h.heap, List.getElem?_set_self (List.getElem?_eq_some_iff.mp h.found).1]

omit [Sha256] in
/-- A thread that is elsewhere spares the core. -/
theorem spares_of_pc {thread : ThreadId} (haction : tr.label.action = .advance thread)
    (hpc : ∀ access, (tr.before.threads thread).pc ≠ some (.locked entry access)) :
    tr.Spares entry := by
  intro other access hother hlocked
  rw [haction, Action.advance.injEq] at hother
  subst hother
  exact absurd hlocked (hpc access)

omit [Sha256] in
theorem spares_of_action (h : ∀ thread, tr.label.action ≠ .advance thread) : tr.Spares entry :=
  fun _ _ haction _ => absurd haction (h _)

/-- **What a transition does to one core**: it serves it, creates it, or
leaves it alone. -/
theorem Joins.on (h : Joins p tr p') (entry : Nat) : tr.On entry := by
  obtain ⟨before, label, after⟩ := tr
  obtain ⟨rfl, rfl, hstep⟩ := h
  have htakes : before.Takes label after := hstep.takes
  cases htakes with
  | reject | start | endCallback => exact .keeps (spares_of_action (by simp)) rfl
  | @fail thread pc error hpc h =>
      refine .keeps ?_ rfl
      rintro other access ⟨⟩ -
      exact ⟨by simp [Process.setThread], error, rfl⟩
  | @run thread pc q progress hpc hexecutes =>
      have helsewhere : (∀ access, pc ≠ .locked entry access) →
          Spares ⟨before, ⟨.advance thread, progress.returned⟩,
            q.setThread thread (progress.leaves (before.threads thread))⟩ entry := by
        intro hne
        refine spares_of_pc rfl fun access hlocked => ?_
        exact hne access (Option.some.inj (hpc.symm.trans hlocked))
      cases hexecutes with
      | @locked entry' access core core' q progress hcore haccess =>
          by_cases hentry : entry' = entry
          · subst hentry
            exact .serves ⟨rfl, hpc, hcore, haccess.serves, haccess.heap, haccess.cores,
              haccess.diffs, haccess.nextHandle, by rw [Process.setThread, haccess.threads]⟩
          · refine .keeps (helsewhere fun _ h => hentry (Pc.locked.inj h).1) ?_
            change q.heap[entry]? = _
            rw [haccess.heap, List.getElem?_set_ne hentry]
      | @insertCore handle epoch =>
          have hspares := helsewhere (by simp)
          by_cases hentry : entry = before.heap.length
          · subst hentry
            exact .creates hspares (List.getElem?_eq_none le_rfl) List.getElem?_concat_length
          · refine .keeps hspares ?_
            change (before.heap ++ _)[entry]? = _
            rw [List.getElem?_append]
            split
            · rfl
            · rw [List.getElem?_eq_none, List.getElem?_eq_none] <;> simp <;> omega
      | allocateCore | destroy | lookup | allocateDiff | insertDiff =>
          exact .keeps (helsewhere (by simp)) rfl
      | counted htables _ =>
          refine .keeps (helsewhere ?_) rfl
          rintro access rfl
          cases htables

end Transition

/-! ## threads -/

/-- The thread that acts. -/
def Action.thread : Action → ThreadId
  | .begin thread _ => thread
  | .advance thread => thread
  | .endCallback thread => thread

theorem Process.Executes.threads {p q : Process} {thread : ThreadId} {pc : Pc}
    {progress : Progress} (h : p.Executes thread pc q progress) : q.threads = p.threads := by
  cases h with
  | locked _ haccess => exact haccess.threads
  | allocateCore | insertCore | destroy | lookup | allocateDiff | insertDiff _ | counted _ _ => rfl

/-- A step moves its own thread only. -/
theorem Transition.Joins.threads_ne {p p' : Process} {tr : Transition}
    (h : Transition.Joins p tr p') {other : ThreadId} (hne : other ≠ tr.label.action.thread) :
    p'.threads other = p.threads other := by
  obtain ⟨before, label, after⟩ := tr
  obtain ⟨rfl, rfl, hstep⟩ := h
  have htakes : before.Takes label after := hstep.takes
  cases htakes with
  | reject _ _ => rfl
  | start _ _ | fail _ _ | endCallback _ => exact Function.update_of_ne hne _ _
  | run _ hexecutes =>
      rw [Process.setThread, hexecutes.threads]
      exact Function.update_of_ne hne _ _

/-- How a thread has come to its program counter. -/
inductive Transition.Reaches (tr : Transition) (thread : ThreadId) (pc : Pc) : Prop where
  | stays (hne : thread ≠ tr.label.action.thread) (hpc : (tr.before.threads thread).pc = some pc)
  | starts {call : Call} (haction : tr.label.action = .begin thread call)
      (hstart : call.start (tr.before.threads thread).callback.isSome = .ok pc)
  | goes {pc₀ : Pc} {q : Process} (haction : tr.label.action = .advance thread)
      (hpc₀ : (tr.before.threads thread).pc = some pc₀)
      (hexecutes : tr.before.Executes thread pc₀ q (.continues pc))
      (hafter : tr.after = q.setThread thread { tr.before.threads thread with pc := some pc })

theorem Transition.Joins.reaches {p p' : Process} {tr : Transition} (h : Transition.Joins p tr p')
    {thread : ThreadId} {pc : Pc} (hpc : (p'.threads thread).pc = some pc) :
    tr.Reaches thread pc := by
  by_cases hne : thread ≠ tr.label.action.thread
  · rw [h.threads_ne hne, ← h.before] at hpc
    exact .stays hne hpc
  · obtain ⟨before, label, after⟩ := tr
    obtain ⟨rfl, rfl, hstep⟩ := h
    have htakes : before.Takes label after := hstep.takes
    rw [not_not] at hne
    subst hne
    cases htakes with
    | reject hnone _ =>
        dsimp only [Action.thread] at hpc
        rw [hnone] at hpc
        cases hpc
    | start _ hstart =>
        simp only [Process.setThread, Action.thread, Function.update_self, Option.some.injEq] at hpc
        subst hpc
        exact .starts rfl hstart
    | fail _ _ | endCallback _ => simp [Process.setThread, Action.thread] at hpc
    | @run thread pc₀ q progress hpc₀ hexecutes =>
        simp only [Process.setThread, Action.thread, Function.update_self] at hpc
        cases progress with
        | finished result output => cases hpc
        | callback diff => cases hpc
        | continues next =>
            cases hpc
            exact .goes rfl hpc₀ hexecutes rfl

/-- A property of program counters that calls start with and sections pass
on. -/
theorem Recorded.pc_invariant {trs : List Transition} {p : Process} (hrun : Recorded trs p)
    {P : Pc → Prop}
    (hstart : ∀ tr ∈ trs, ∀ thread call inCallback pc, tr.label.action = .begin thread call →
      call.start inCallback = .ok pc → P pc)
    (hstep : ∀ ⦃q q' : Process⦄ ⦃thread pc pc'⦄, q.Executes thread pc q' (.continues pc') →
      P pc → P pc')
    {thread : ThreadId} {pc : Pc} (hpc : (p.threads thread).pc = some pc) : P pc := by
  refine hrun.invariant (I := fun trs p =>
    (∀ tr ∈ trs, ∀ thread call inCallback pc, tr.label.action = .begin thread call →
      call.start inCallback = .ok pc → P pc) →
    ∀ thread pc, (p.threads thread).pc = some pc → P pc) (fun _ _ _ hpc => by cases hpc) ?_
    hstart thread pc hpc
  intro trs p tr p' _ ih hjoins hstart thread pc hpc
  have ih := ih fun tr htr => hstart tr (List.mem_append_left _ htr)
  have hreaches := hjoins.reaches hpc
  obtain ⟨rfl, rfl, -⟩ := hjoins
  cases hreaches with
  | stays _ hpc => exact ih thread pc hpc
  | starts haction hcall => exact hstart tr (by simp) thread _ _ pc haction hcall
  | goes _ hpc₀ hexecutes _ => exact hstep hexecutes (ih thread _ hpc₀)

/-! ## replaying a schedule -/

/-- A section that does not end its call. -/
def Label.pending (action : Action) : Label := ⟨action, none⟩

/-- A step that ends its call, or does not, as the label says. -/
def Process.replay (self : Process) (label : Label) : Option Process :=
  match self.step label.action with
  | none => none
  | some (next, returned) => if returned = label.returned then some next else none

theorem Process.step_of_replay {p p' : Process} {label : Label} (h : p.replay label = some p') :
    p.Step label p' := by
  unfold Process.replay at h
  split at h
  · cases h
  · next hstep =>
    split at h
    · next hreturned =>
      cases h
      rw [Process.Step, hstep, hreturned]
    · cases h

/-- A replayed step, written down. -/
def Process.record (recorded : List Transition × Process) (label : Label) :
    Option (List Transition × Process) :=
  (recorded.2.replay label).map fun next => (recorded.1 ++ [⟨recorded.2, label, next⟩], next)

/-- The transitions of the labels from the process on, and its last state. -/
def Process.recorded (self : Process) (labels : List Label) : Option (List Transition × Process) :=
  labels.foldlM Process.record ([], self)

theorem Process.runs_of_recorded {self : Process} {labels : List Label}
    {recorded : List Transition × Process} (h : self.recorded labels = some recorded) :
    Runs Transition.Joins self recorded.1 recorded.2 := by
  unfold Process.recorded at h
  induction labels using List.reverseRecOn generalizing recorded with
  | nil =>
      cases h
      exact .nil
  | append_singleton labels label ih =>
      rw [List.foldlM_append, Option.bind_eq_bind, Option.bind_eq_some_iff] at h
      obtain ⟨before, hbefore, hlast⟩ := h
      obtain ⟨next, hreplay, rfl⟩ : ∃ next, before.2.replay label = some next ∧
          (before.1 ++ [⟨before.2, label, next⟩], next) = recorded := by
        simpa [Process.record] using hlast
      exact .snoc (ih hbefore) ⟨rfl, rfl, Process.step_of_replay hreplay⟩

end Record

end StitchEditor.Abi
