import Mathlib
import StitchEditor.Abi.Leases
import StitchEditor.Abi.Staleness
import StitchEditor.Abi.Submission

/-!
# StitchEditor.Abi.Cancellation

Cancellation is permanent.

The epoch of a core never goes down, and a revision that was replaced never
comes back.  A lease was current when it was registered, so one that is not
current any more stays so, and its submit fails at the check of the epoch or
of the revision from then on (`cancels_for_good`).
-/

namespace StitchEditor.Abi

open StitchEditor Fallible Run

section Cancellation

variable [Sha256]

variable {entry : Nat} {id : UInt64}

/-! ## one section -/

/-- The lease was registered for the same epoch and revision. -/
def Lease.SameFrame (lease lease' : Lease) : Prop :=
  lease'.metadata.epoch = lease.metadata.epoch ∧ lease'.metadata.revision = lease.metadata.revision

omit [Sha256] in
/-- Only a registration gives an id another frame. -/
theorem Lease.Moves.sameFrame {thread : ThreadId} {fresh : UInt64} {access : Access}
    {old new : Option Lease} (h : Lease.Moves thread fresh id access old new) {lease' : Lease}
    (hnew : new = some lease') :
    (∃ lease, old = some lease ∧ lease.SameFrame lease') ∨
      ∃ metadata, access = .register metadata ∧ id = fresh ∧ lease' = metadata.lease thread id := by
  obtain ⟨lease, hold, rfl | ⟨state, rfl⟩⟩ | hregisters := h.origin hnew
  · exact .inl ⟨lease', hold, rfl, rfl⟩
  · exact .inl ⟨lease, hold, rfl, rfl⟩
  · exact .inr hregisters

/-- A lease of the id in the second state is one of the first. -/
def CoreState.KeepsFrame (core core' : CoreState) (id : UInt64) : Prop :=
  ∀ ⦃lease' : Lease⦄, core'.leases[id]? = some lease' →
    ∃ lease : Lease, core.leases[id]? = some lease ∧ lease.SameFrame lease'

/-! ## from one moment to a later one -/

variable {p q r : Process} {front mid back : List Transition} {core core' core'' : CoreState}

/-- **Epochs never go down.** -/
theorem epoch_le (hrun : Runs Transition.Joins p mid q) (hcore : p.heap[entry]? = some core)
    (hcore' : q.heap[entry]? = some core') : core.epoch ≤ core'.epoch := by
  obtain ⟨found, hfound, hle⟩ :=
    exists_core_of_runs (R := fun found => core.epoch ≤ found.epoch) hrun
    hcore (UInt64.le_refl _) fun _ _ _ _ _ _ _ hserves hle =>
      UInt64.le_trans hle hserves.serves.owner_epoch.2
  obtain rfl := Option.some.inj (hcore'.symm.trans hfound)
  exact hle

/-- A lease keeps its frame until its id is registered again. -/
theorem keepsFrame (hrun : Runs Transition.Joins p mid q) (hcore : p.heap[entry]? = some core)
    (hcore' : q.heap[entry]? = some core') (hregisters : ∀ tr ∈ mid, ¬ tr.Registers entry id) :
    core.KeepsFrame core' id := by
  have hstep : ∀ tr ∈ mid, ∀ ⦃thread access core₁ core₂ progress⦄,
      tr.Serves entry thread access core₁ core₂ progress → core.KeepsFrame core₁ id →
        core.KeepsFrame core₂ id := by
    intro tr htr thread access core₁ core₂ progress hserves hkeeps lease₂ hlease₂
    obtain ⟨lease₁, hlease₁, hframe⟩ | ⟨metadata, rfl, rfl, -⟩ :=
      (hserves.serves.moves id).sameFrame hlease₂
    · obtain ⟨lease, hlease, hframe'⟩ := hkeeps hlease₁
      exact ⟨lease, hlease, hframe.1.trans hframe'.1, hframe.2.trans hframe'.2⟩
    · exact absurd hserves.registers (hregisters tr htr)
  obtain ⟨found, hfound, hkeeps⟩ := exists_core_of_runs hrun hcore
    (fun lease hlease => ⟨lease, hlease, rfl, rfl⟩) hstep
  obtain rfl := Option.some.inj (hcore'.symm.trans hfound)
  exact hkeeps

/-- **A revision that was replaced never comes back.** -/
theorem revision_ne (hfront : Recorded front p) (hmid : Runs Transition.Joins p mid q)
    (hback : Runs Transition.Joins q back r)
    (hapart : RevisionsApart (logOf (submissions (front ++ mid ++ back) entry)))
    (hcore : p.heap[entry]? = some core) (hcore' : q.heap[entry]? = some core')
    (hcore'' : r.heap[entry]? = some core'') (hreplaced : core'.revision ≠ core.revision) :
    core''.revision ≠ core.revision := by
  have hmiddle : Recorded (front ++ mid) q := hfront.append hmid
  have hlast : Recorded (front ++ mid ++ back) r := hmiddle.append hback
  rw [CoreState.revision_eq ((hmiddle.logged entry).logs hcore'),
    CoreState.revision_eq ((hfront.logged entry).logs hcore)] at hreplaced
  rw [CoreState.revision_eq ((hlast.logged entry).logs hcore''),
    CoreState.revision_eq ((hfront.logged entry).logs hcore)]
  simp only [submissions_append, logOf_append, List.append_assoc] at hreplaced hapart ⊢
  intro heq
  have hlength := hapart.length_eq (List.prefix_append _ _) List.prefix_rfl heq.symm
  simp only [List.length_append] at hlength
  have hnil : logOf (submissions mid entry) = [] := List.length_eq_zero_iff.mp (by omega)
  exact hreplaced (by rw [hnil, List.append_nil])

/-! ## leases were current once -/

/-- The lease was registered for an epoch and a revision that the core has
reached. -/
structure Lease.Aged (lease : Lease) (core : CoreState) (log : List Command) : Prop where
  epoch : lease.metadata.epoch ≤ core.epoch
  revision : ∃ front, front <+: log ∧ lease.metadata.revision = revisionOf front

def CoreState.Aged (core : CoreState) (log : List Command) : Prop :=
  ∀ ⦃id : UInt64⦄ ⦃lease : Lease⦄, core.leases[id]? = some lease → lease.Aged core log

theorem Lease.Aged.mono {lease lease' : Lease} {log log' : List Command} (h : lease.Aged core log)
    (hframe : lease.SameFrame lease') (hepoch : core.epoch ≤ core'.epoch) (hlog : log <+: log') :
    lease'.Aged core' log' := by
  obtain ⟨front, hfront, hrevision⟩ := h.revision
  exact ⟨hframe.1 ▸ UInt64.le_trans h.epoch hepoch, front, hfront.trans hlog,
    hframe.2.trans hrevision⟩

/-- **Every lease was current once.** -/
theorem Recorded.aged (hrun : Recorded front p) (hcore : p.heap[entry]? = some core) :
    core.Aged (logOf (submissions front entry)) := by
  refine hrun.invariant (I := fun trs p => ∀ core, p.heap[entry]? = some core →
    core.Aged (logOf (submissions trs entry))) nofun ?_ core hcore
  intro trs p tr p' hrun ih hjoins core' hcore'
  have hon := hjoins.on entry
  obtain ⟨rfl, rfl, -⟩ := hjoins
  have hlog : logOf (submissions trs entry) <+: logOf (submissions (trs ++ [tr]) entry) := by
    rw [submissions_append, logOf_append]
    exact List.prefix_append _ _
  cases hon with
  | creates _ _ hafter =>
      obtain rfl := Option.some.inj (hafter.symm.trans hcore')
      intro id lease hlease
      simp at hlease
  | keeps _ hheap =>
      intro id lease hlease
      exact (ih core' (hheap ▸ hcore') hlease).mono ⟨rfl, rfl⟩ (UInt64.le_refl _) hlog
  | @serves thread access core _ progress hserves =>
      obtain rfl := Option.some.inj (hserves.after.symm.trans hcore')
      have hepoch := hserves.serves.owner_epoch.2
      intro id lease' hlease'
      obtain ⟨lease, hlease, hframe⟩ | ⟨metadata, rfl, rfl, rfl⟩ :=
        (hserves.serves.moves id).sameFrame hlease'
      · exact (ih core hserves.found hlease).mono hframe hepoch hlog
      · cases hserves.serves with
        | register hcheck =>
            obtain ⟨hmetadata, hrevision⟩ := CoreState.checkRegister_eq_ok_iff.mp hcheck
            refine ⟨UInt64.le_trans (UInt64.le_of_eq hmetadata) hepoch, _, hlog, ?_⟩
            exact hrevision.trans (CoreState.revision_eq ((hrun.logged entry).logs hserves.found))

/-! ## cancelled leases -/

/-- A lease that is not current never becomes so. -/
theorem not_current (hfront : Recorded front p) (hmid : Runs Transition.Joins p mid q)
    (hapart : RevisionsApart (logOf (submissions (front ++ mid) entry)))
    (hcore : p.heap[entry]? = some core) (hcore' : q.heap[entry]? = some core')
    (hregisters : ∀ tr ∈ mid, ¬ tr.Registers entry id) {lease lease' : Lease}
    (hlease : core.leases[id]? = some lease) (hlease' : core'.leases[id]? = some lease')
    (hstale : ¬ lease.Current core) : ¬ lease'.Current core' := by
  obtain ⟨found, hfound, hepoch, hrevision⟩ := keepsFrame hmid hcore hcore' hregisters hlease'
  obtain rfl := Option.some.inj (hlease.symm.trans hfound)
  rintro ⟨hepoch', hrevision'⟩
  obtain ⟨hle, early, hearly, hregistered⟩ := hfront.aged hcore hlease
  refine hstale ⟨UInt64.le_antisymm hle ?_, ?_⟩
  · rw [← hepoch, hepoch']
    exact epoch_le hmid hcore hcore'
  · -- the log has not grown since the lease was registered
    have hlater : revisionOf early = revisionOf (logOf (submissions (front ++ mid) entry)) := by
      rw [← hregistered, ← hrevision, hrevision']
      have hall : Recorded (front ++ mid) q := hfront.append hmid
      exact CoreState.revision_eq ((hall.logged entry).logs hcore')
    have hlog : logOf (submissions front entry) <+: logOf (submissions (front ++ mid) entry) := by
      rw [submissions_append, logOf_append]
      exact List.prefix_append _ _
    have hlength := hapart.length_eq (hearly.trans hlog) List.prefix_rfl hlater
    have heq : early = logOf (submissions front entry) :=
      hearly.eq_of_length_le (hlength ▸ hlog.length_le)
    rw [hregistered, heq]
    exact (CoreState.revision_eq ((hfront.logged entry).logs hcore)).symm

/-- The check of a submit, when the lease is gone or not current. -/
theorem checkSubmit_fails {thread : ThreadId} {handle device : UInt64}
    {returned : Option (StitchResult × Output)} (hcore : p.heap[entry]? = some core)
    (hstale : ∀ lease, core.leases[id]? = some lease → ¬ lease.Current core)
    (hpc : (p.threads thread).pc = some (.locked entry (.checkSubmit handle id device)))
    (hstep : p.Step ⟨.advance thread, returned⟩ q) :
    (core.leases[id]? = none ∧ returned = some (.unknownHandle, .none)) ∨
      ∃ lease, core.leases[id]? = some lease ∧
        (returned = some (.staleEpoch, .none) ∨ returned = some (.staleRevision, .none)) := by
  have hexec : p.exec thread (.locked entry (.checkSubmit handle id device)) =
      (core.checkSubmit id >>= fun _ =>
        pure (p,
          .continues (.lookup handle (.transition id device .acquired .submitted none)))) := by
    simp only [Process.exec, hcore, Process.access]
  simp only [Process.Step, Process.step, hpc, hexec] at hstep
  unfold CoreState.checkSubmit at hstep
  cases hlease : core.leases[id]? with
  | none =>
      rw [hlease] at hstep
      cases hstep
      exact .inl ⟨rfl, rfl⟩
  | some lease =>
      refine .inr ⟨lease, rfl, ?_⟩
      have hstale := hstale lease hlease
      rw [hlease] at hstep
      by_cases hepoch : lease.metadata.epoch = core.epoch
      · have hrevision : lease.metadata.revision ≠ core.revision := fun h => hstale ⟨hepoch, h⟩
        simp only [refuse, hepoch, hrevision, ne_eq, not_true_eq_false, not_false_eq_true, if_true,
          if_false] at hstep
        cases hstep
        exact .inr rfl
      · simp only [refuse, hepoch, ne_eq, not_false_eq_true, if_true] at hstep
        cases hstep
        exact .inl rfl

/-- **Cancellation is permanent**: epochs never go down, a revision that was
replaced never comes back, and once a lease is not current every later submit
of it fails its check. -/
theorem cancels_for_good (hfront : Recorded front p) (hmid : Runs Transition.Joins p mid q)
    (hback : Runs Transition.Joins q back r)
    (hapart : RevisionsApart (logOf (submissions (front ++ mid ++ back) entry)))
    (hcore : p.heap[entry]? = some core) (hcore' : q.heap[entry]? = some core') :
    core.epoch ≤ core'.epoch ∧
    (core'.revision ≠ core.revision →
      ∀ core'', r.heap[entry]? = some core'' → core''.revision ≠ core.revision) ∧
    ∀ id lease, core.leases[id]? = some lease → ¬ lease.Current core →
      (∀ tr ∈ mid, ¬ tr.Registers entry id) →
      ∀ thread handle device returned q',
        (q.threads thread).pc = some (.locked entry (.checkSubmit handle id device)) →
        q.Step ⟨.advance thread, returned⟩ q' →
        (core'.leases[id]? = none ∧ returned = some (.unknownHandle, .none)) ∨
          ∃ lease', core'.leases[id]? = some lease' ∧
            (returned = some (.staleEpoch, .none) ∨ returned = some (.staleRevision, .none)) := by
  refine ⟨epoch_le hmid hcore hcore', fun hreplaced core'' hcore'' =>
    revision_ne hfront hmid hback hapart hcore hcore' hcore'' hreplaced, ?_⟩
  intro id lease hlease hstale hregisters thread handle device returned q' hpc hstep
  have hapart' : RevisionsApart (logOf (submissions (front ++ mid) entry)) := by
    refine hapart.of_isPrefix ?_
    rw [submissions_append (front ++ mid), logOf_append]
    exact List.prefix_append _ _
  exact checkSubmit_fails hcore' (fun lease' hlease' =>
    not_current hfront hmid hapart' hcore hcore' hregisters hlease hlease' hstale) hpc hstep

end Cancellation

section Schedule

/-! ## a run -/

/-- Thread 1 registers the frame 2 and thread 0 then adds a track. -/
def cancelLabels : List Label :=
  [.pending (.begin 0 (.coreCreate (some ⟨header coreConfigSize, 0⟩) true)),
    .pending (.advance 0),
    ⟨.advance 0, some (.ok, .handle 1)⟩,
    .pending (.begin 1 (.frameLeaseRegister 1 (some frame) true)),
    .pending (.advance 1),
    ⟨.advance 1, some (.ok, .handle 2)⟩,
    .pending (.begin 0 (.coreSubmit 1 (some (addTrackBatch 0x2a none)) false true)),
    .pending (.advance 0),
    .pending (.advance 0)]

/-- Thread 1 comes to submit the frame. -/
def lateLabels : List Label :=
  [.pending (.begin 1 (.frameLeaseSubmit 1 2 1)), .pending (.advance 1)]

def staleRevisionLabel : Label := ⟨.advance 1, some (.staleRevision, .none)⟩

theorem isSome_cancelLabels :
    letI := submitSha256
    (Process.initial.recorded cancelLabels).isSome := by
  decide +kernel

/-- The process after the track. -/
def cancelled : List Transition × Process :=
  letI := submitSha256
  (Process.initial.recorded cancelLabels).get isSome_cancelLabels

theorem isSome_lateLabels :
    letI := submitSha256
    (cancelled.2.recorded lateLabels).isSome := by
  decide +kernel

/-- The process before the check. -/
def late : List Transition × Process :=
  letI := submitSha256
  (cancelled.2.recorded lateLabels).get isSome_lateLabels

theorem isSome_staleRevisionLabel :
    letI := submitSha256
    (late.2.replay staleRevisionLabel).isSome := by
  decide +kernel

theorem labels_late : late.1.map Transition.label = lateLabels := rfl

theorem revisionsApart_late :
    letI := submitSha256
    RevisionsApart (logOf (submissions (cancelled.1 ++ late.1 ++ []) 0)) := by
  let _ := submitSha256
  refine revisionsApart_twoTracks.of_isPrefix ⟨[addSecondTrack], ?_⟩
  decide +kernel

theorem cancels_for_good_cancelLabels :
    letI := submitSha256
    ∃ q' core', late.2.heap[0]? = some core' ∧ late.2.Step staleRevisionLabel q' ∧
      ∃ lease', core'.leases[(2 : UInt64)]? = some lease' := by
  let _ := submitSha256
  have hfront : Recorded cancelled.1 cancelled.2 :=
    Process.runs_of_recorded (Option.some_get isSome_cancelLabels).symm
  have hmid : Runs Transition.Joins cancelled.2 late.1 late.2 :=
    Process.runs_of_recorded (Option.some_get isSome_lateLabels).symm
  have hstep := Process.step_of_replay (Option.some_get isSome_staleRevisionLabel).symm
  obtain ⟨core, lease, hcore, hlease, -, hstale⟩ := Process.standing_eq_some_iff.mp
    (by decide +kernel : cancelled.2.standing 0 2 = some (.registered, false))
  obtain ⟨core', -, hcore', -⟩ := Process.standing_eq_some_iff.mp
    (by decide +kernel : late.2.standing 0 2 = some (.registered, false))
  obtain ⟨-, -, hfails⟩ := cancels_for_good hfront hmid .nil revisionsApart_late hcore hcore'
  have hregisters : ∀ tr ∈ late.1, ¬ tr.Registers 0 2 := by
    rintro tr htr ⟨thread, metadata, hlabel, -⟩
    have hmem : tr.label ∈ lateLabels := labels_late ▸ List.mem_map_of_mem htr
    simp [hlabel, lateLabels, Label.pending] at hmem
  obtain ⟨-, hreturned⟩ | ⟨lease', hlease', -⟩ :=
    hfails 2 lease hlease (of_decide_eq_false hstale) hregisters 1 1 1 _ _ rfl hstep
  · cases hreturned
  · exact ⟨_, core', hcore', hstep, lease', hlease'⟩

end Schedule

end StitchEditor.Abi
