import Mathlib
import StitchEditor.Abi.Log

/-!
# StitchEditor.Abi.Submission

Submit as a log that loses no update.

The core's history is that of the batches that it accepted, in order, and
their diffs form one chain.  A batch is accepted on top of the revision that
it expects only (`Recorded.unseen`); a submit that returns an error has
touched nothing (`Submits.untouched`), and one that hands over a diff has
added its batch (`Submits.accepted`).
-/

namespace StitchEditor.Abi

open StitchEditor Chain Fallible Run

section Submission

variable [Sha256]

variable {trs : List Transition} {p : Process} {entry : Nat}

/-! ## honest callers -/

/-- The caller keeps the promise of the batch. -/
def Transition.Honest (tr : Transition) : Prop :=
  ∀ ⦃thread core batch callback outDiff⦄,
    tr.label.action = .begin thread (.coreSubmit core (some batch) callback outDiff) → batch.Honest

/-- A batch that is on its way has commands. -/
def Pc.Filled : Pc → Prop
  | .lookup _ (.submit batch _) => batch.raws ≠ []
  | .locked _ (.submit batch _) => batch.raws ≠ []
  | _ => True

omit [Sha256] in
theorem StitchCommandBatch.Honest.raws_ne_nil {batch : StitchCommandBatch} (h : batch.Honest)
    (hcheck : checkBatch batch = .ok ()) : batch.raws ≠ [] := by
  simp only [checkBatch, bind_eq_ok_iff, refuse_eq_ok_iff] at hcheck
  obtain ⟨-, -, -, -, hcount⟩ := hcheck
  push Not at hcount
  obtain ⟨hzero, -, hnull⟩ := hcount
  obtain ⟨raws, hraws⟩ := Option.ne_none_iff_exists'.mp (hnull (Nat.pos_of_ne_zero hzero))
  have hlength := h raws hraws
  rw [StitchCommandBatch.raws, hraws, Option.getD_some, ← hlength, List.take_length]
  rintro rfl
  exact hzero hlength.symm

omit [Sha256] in
/-- A submit that passes the checks of its arguments. -/
theorem Call.start_coreSubmit {core : UInt64} {batch : Option StitchCommandBatch}
    {callback outDiff inCallback : Bool} {pc : Pc}
    (h : (Call.coreSubmit core batch callback outDiff).start inCallback = .ok pc) :
    ∃ found, batch = some found ∧ checkBatch found = .ok () ∧
      pc = .lookup core (.submit found callback) := by
  simp only [Call.start, bind_eq_ok_iff, pure_eq_ok_iff] at h
  obtain ⟨_, -, _, -, found, hfound, _, hcheck, rfl⟩ := h
  cases batch with
  | none => cases hfound
  | some batch =>
      cases hfound
      exact ⟨_, rfl, hcheck, rfl⟩

omit [Sha256] in
theorem Pc.filled_of_start {call : Call} {inCallback : Bool} {pc : Pc}
    (hhonest : ∀ ⦃core batch callback outDiff⦄,
      call = .coreSubmit core (some batch) callback outDiff → batch.Honest)
    (h : call.start inCallback = .ok pc) : pc.Filled := by
  cases call with
  | coreSubmit core batch callback outDiff =>
      obtain ⟨batch, rfl, hcheck, rfl⟩ := Call.start_coreSubmit h
      exact (hhonest rfl).raws_ne_nil hcheck
  | _ =>
      simp only [Call.start, bind_eq_ok_iff, pure_eq_ok_iff] at h
      first
      | subst h; trivial
      | obtain ⟨_, -, rfl⟩ := h; trivial
      | obtain ⟨_, -, _, -, rfl⟩ := h; trivial
      | obtain ⟨_, -, _, -, _, -, rfl⟩ := h; trivial
      | obtain ⟨_, -, _, -, _, -, _, -, rfl⟩ := h; trivial

theorem Recorded.filled (hrun : Recorded trs p) (hhonest : ∀ tr ∈ trs, tr.Honest)
    {thread : ThreadId} {pc : Pc} (hpc : (p.threads thread).pc = some pc) : pc.Filled := by
  refine hrun.pc_invariant ?_ ?_ hpc
  · intro tr htr thread call inCallback pc haction hstart
    exact Pc.filled_of_start (fun _ _ _ _ hcall => hhonest tr htr (hcall ▸ haction)) hstart
  · intro q q' thread pc pc' hexecutes hfilled
    cases hexecutes with
    | @lookup handle access =>
        cases access with
        | submit batch callback => exact hfilled
        | _ => trivial
    | locked hcore haccess =>
        cases haccess.serves <;> trivial
    | insertDiff h => split at h <;> cases h
    | allocateCore | allocateDiff => trivial

/-- An accepted batch of an honest caller adds commands. -/
theorem Recorded.submission_ne_nil {front back : List Transition} {tr : Transition}
    (hrun : Recorded (front ++ tr :: back) p) (hhonest : ∀ tr' ∈ front ++ tr :: back, tr'.Honest)
    {submission : StitchCommandBatch × StitchDiffMetadata}
    (hsubmission : tr.submission? entry = some submission) : submission.1.decoded ≠ [] := by
  obtain ⟨hfront, hjoins, -⟩ := hrun.split
  cases hjoins.on entry with
  | creates hspares | keeps hspares =>
      rw [hspares.submission?] at hsubmission
      cases hsubmission
  | serves hserves =>
      obtain ⟨batch, callback, metadata, rfl, haccepts, hsome⟩ | ⟨-, hnone⟩ := hserves.submission?
      · rw [hsome, Option.some.injEq] at hsubmission
        subst hsubmission
        have hfilled : batch.raws ≠ [] :=
          hfront.filled (fun tr' htr' => hhonest tr' (List.mem_append_left _ htr')) hserves.pc
        have hlength := length_of_mapM_eq_ok haccepts.decodes
        intro hnil
        rw [hnil] at hlength
        exact hfilled (List.length_eq_zero_iff.mp hlength.symm)
      · rw [hnone] at hsubmission
        cases hsubmission

/-! ## no lost updates -/

/-- **No update is lost**: a batch that expects what was once the revision is
accepted only if none was accepted since. -/
theorem Recorded.unseen {front mid back : List Transition} {earlier tr : Transition}
    (hrun : Recorded (front ++ earlier :: (mid ++ tr :: back)) p)
    (hhonest : ∀ tr' ∈ front ++ earlier :: (mid ++ tr :: back), tr'.Honest)
    (hapart : RevisionsApart (logOf (submissions (front ++ earlier :: (mid ++ tr :: back)) entry)))
    {core : CoreState} (hcore : earlier.before.heap[entry]? = some core)
    {submission : StitchCommandBatch × StitchDiffMetadata}
    (hsubmission : tr.submission? entry = some submission)
    (hexpected : submission.1.expectedRevision = core.revision) :
    ∀ tr' ∈ earlier :: mid, tr'.submission? entry = none := by
  generalize hall : front ++ earlier :: (mid ++ tr :: back) = trs at hrun hhonest hapart
  have hlast : trs = (front ++ earlier :: mid) ++ tr :: back := by simp [← hall]
  have hrun' := hlast ▸ hrun
  obtain ⟨hbefore, hjoins, -⟩ := hrun'.split
  have hearlier : core.revision = revisionOf (logOf (submissions front entry)) :=
    CoreState.revision_eq (((hall ▸ hrun).split.1.logged entry).logs hcore)
  have hnow : submission.1.expectedRevision =
      revisionOf (logOf (submissions (front ++ earlier :: mid) entry)) := by
    cases hjoins.on entry with
    | creates hspares | keeps hspares =>
        rw [hspares.submission?] at hsubmission
        cases hsubmission
    | serves hserves =>
        obtain ⟨batch, callback, metadata, -, haccepts, hsome⟩ | ⟨-, hnone⟩ := hserves.submission?
        · rw [hsome, Option.some.injEq] at hsubmission
          rw [← hsubmission, haccepts.expected]
          exact CoreState.revision_eq ((hbefore.logged entry).logs hserves.found)
        · rw [hnone] at hsubmission
          cases hsubmission
  -- the same revision in front of `earlier` and in front of `tr`
  have hfront : logOf (submissions front entry) <+: logOf (submissions trs entry) := by
    rw [← hall, submissions_append, logOf_append]
    exact List.prefix_append _ _
  have hfront' : logOf (submissions (front ++ earlier :: mid) entry) <+:
      logOf (submissions trs entry) := by
    rw [hlast, submissions_append (front ++ earlier :: mid), logOf_append]
    exact List.prefix_append _ _
  have hlength := hapart.length_eq hfront hfront' (by rw [← hearlier, ← hexpected, hnow])
  rw [submissions_append, logOf_append, List.length_append] at hlength
  have hnil : logOf (submissions (earlier :: mid) entry) = [] :=
    List.length_eq_zero_iff.mp (by omega)
  intro tr' htr'
  by_contra hsome
  obtain ⟨submission', hsubmission'⟩ := Option.ne_none_iff_exists'.mp hsome
  have hmem : submission' ∈ submissions (earlier :: mid) entry :=
    List.mem_filterMap.mpr ⟨tr', htr', hsubmission'⟩
  obtain ⟨before, after, hsplit⟩ := List.append_of_mem htr'
  have htrs : trs = (front ++ before) ++ tr' :: (after ++ tr :: back) := by
    rw [hlast, List.append_assoc, ← List.append_assoc, hsplit]
    simp
  have hne := Recorded.submission_ne_nil (htrs ▸ hrun) (htrs ▸ hhonest) hsubmission'
  exact hne (List.flatMap_eq_nil_iff.mp hnil submission' hmem)

/-! ## the outcome of one submit -/

/-- The transitions of one thread. -/
def actsOf (thread : ThreadId) (trs : List Transition) : List Transition :=
  trs.filter fun tr => tr.label.action.thread = thread

omit [Sha256] in
theorem forall_mem_concat {α : Type} {P : α → Prop} {l : List α} {a : α} (hl : ∀ x ∈ l, P x)
    (ha : P a) : ∀ x ∈ l ++ [a], P x :=
  List.forall_mem_append.mpr ⟨hl, List.forall_mem_singleton.mpr ha⟩

omit [Sha256] in
theorem actsOf_append (thread : ThreadId) (front back : List Transition) :
    actsOf thread (front ++ back) = actsOf thread front ++ actsOf thread back :=
  List.filter_append ..

/-- The transition leaves every core and every diff as it was, takes no
handle and accepts no batch. -/
structure Transition.Untouched (tr : Transition) : Prop where
  heap : tr.after.heap = tr.before.heap
  diffs : tr.after.diffs = tr.before.diffs
  nextHandle : tr.after.nextHandle = tr.before.nextHandle
  submission? : ∀ entry, tr.submission? entry = none

/-- The submit hands over the diff, to its caller or to its callback. -/
def Transition.Succeeds (tr : Transition) (diff : UInt64) : Prop :=
  tr.label.returned = some (.ok, .handle diff) ∨
    (tr.label.returned = none ∧ tr.after.threads tr.label.action.thread = ⟨some diff, none⟩)

/-- The transition returns no error. -/
def Transition.Sound (tr : Transition) : Prop :=
  ∀ ⦃error output⦄, tr.label.returned = some (error, output) → error = .ok

omit [Sha256] in
theorem Transition.Sound.of_pending {tr : Transition} (h : tr.label.returned = none) :
    tr.Sound := by
  intro error output hreturned
  rw [h] at hreturned
  cases hreturned

/-- A submit from its begin on, as far as it gets before it returns or its
callback runs. -/
structure Submits (thread : ThreadId) (batch : Option StitchCommandBatch) (first : Transition)
    (rest : List Transition) : Prop where
  begins : ∃ core callback outDiff,
    first.label.action = .begin thread (.coreSubmit core batch callback outDiff)
  busy : ∀ tr ∈ rest, tr.label.action.thread = thread → tr.label.action = .advance thread

/-- How far a submit has come. -/
inductive Phase (batch : Option StitchCommandBatch) (acts : List Transition) (state : Thread) :
    Prop where
  | trying {pc : Pc} {found : StitchCommandBatch} {callback : Bool} (hpc : state.pc = some pc)
      (hbatch : batch = some found)
      (hsubmit : (∃ core, pc = .lookup core (.submit found callback)) ∨
        ∃ entry, pc = .locked entry (.submit found callback))
      (hacts : ∀ tr ∈ acts, tr.Untouched ∧ tr.Sound ∧ ∀ diff, ¬ tr.Succeeds diff)
  | failed (hpc : state.pc = none)
      (hacts : ∀ tr ∈ acts, tr.Untouched ∧ ∀ diff, ¬ tr.Succeeds diff)
  | accepted {submission : StitchCommandBatch × StitchDiffMetadata}
      (hbatch : batch = some submission.1)
      (hpc : state.pc = none ∨ (∃ callback, state.pc = some (.allocateDiff submission.2 callback)) ∨
        ∃ handle callback, state.pc = some (.insertDiff handle submission.2 callback))
      (haccepted : ∃ tr ∈ acts, ∃ entry, tr.submission? entry = some submission)
      (hacts : ∀ tr ∈ acts, tr.Sound ∧
        ∀ diff, tr.Succeeds diff → tr.after.diffs[diff]? = some ⟨submission.2, 1⟩)

/-- The transition that a section of the thread makes. -/
def Transition.ofSection (p : Process) (thread : ThreadId) (q : Process) (progress : Progress) :
    Transition :=
  ⟨p, ⟨.advance thread, progress.returned⟩,
    q.setThread thread (progress.leaves (p.threads thread))⟩

omit [Sha256] in
theorem Transition.threads_ofSection (p : Process) (thread : ThreadId) (q : Process)
    (progress : Progress) :
    (ofSection p thread q progress).after.threads thread = progress.leaves (p.threads thread) :=
  Function.update_self ..

omit [Sha256] in
/-- A transition that leaves its thread in the call hands over nothing. -/
theorem Transition.not_succeeds_of_pc {tr : Transition} {pc : Pc}
    (hreturned : tr.label.returned = none)
    (hpc : (tr.after.threads tr.label.action.thread).pc = some pc) (diff : UInt64) :
    ¬ tr.Succeeds diff := by
  rintro (hsome | ⟨-, hthread⟩)
  · rw [hreturned] at hsome
    cases hsome
  · rw [hthread] at hpc
    cases hpc

omit [Sha256] in
theorem Transition.not_succeeds_of_error {tr : Transition} {error : StitchResult}
    (hreturned : tr.label.returned = some (error, .none)) (diff : UInt64) : ¬ tr.Succeeds diff := by
  rintro (hsome | ⟨hnone, -⟩)
  · rw [hreturned] at hsome
    cases hsome
  · rw [hreturned] at hnone
    cases hnone

section Phases

variable {p q : Process} {thread : ThreadId} {batch : Option StitchCommandBatch}
  {acts : List Transition} {pc : Pc} {progress : Progress}

/-- How a submit begins. -/
theorem Phase.of_begin {first : Transition} {p' : Process} {core : UInt64}
    {callback outDiff : Bool} (hjoins : Transition.Joins p first p')
    (hbegin : first.label.action = .begin thread (.coreSubmit core batch callback outDiff)) :
    Phase batch [first] (p'.threads thread) := by
  obtain ⟨before, ⟨action, returned⟩, after⟩ := first
  obtain ⟨rfl, rfl, hstep⟩ := hjoins
  obtain rfl : action = _ := hbegin
  have htakes : before.Takes _ after := hstep.takes
  cases htakes with
  | reject hpc hstart =>
      refine .failed hpc fun tr htr => ?_
      obtain rfl := List.mem_singleton.mp htr
      exact ⟨⟨rfl, rfl, rfl, fun _ => rfl⟩, Transition.not_succeeds_of_error rfl⟩
  | start hpc hstart =>
      obtain ⟨found, hbatch, -, rfl⟩ := Call.start_coreSubmit hstart
      have hafter : ((before.setThread thread { before.threads thread with
          pc := some (.lookup core (.submit found callback)) }).threads thread).pc =
          some (.lookup core (.submit found callback)) := by
        simp [Process.setThread]
      refine .trying hafter hbatch (.inl ⟨core, rfl⟩) fun tr htr => ?_
      obtain rfl := List.mem_singleton.mp htr
      exact ⟨⟨rfl, rfl, rfl, fun _ => rfl⟩, .of_pending rfl,
        Transition.not_succeeds_of_pc rfl hafter⟩

/-- A submit that has not been accepted can fail. -/
theorem Phase.fails {error : StitchResult} (h : Phase batch acts (p.threads thread))
    (hpc : (p.threads thread).pc = some pc) (hexec : p.exec thread pc = .error error) :
    Phase batch (acts ++ [⟨p, ⟨.advance thread, some (error, .none)⟩,
        p.setThread thread { p.threads thread with pc := none }⟩])
      ((p.setThread thread { p.threads thread with pc := none }).threads thread) := by
  cases h with
  | failed hnone =>
      rw [hpc] at hnone
      cases hnone
  | accepted _ hat =>
      rcases hat with hnone | ⟨callback, hat⟩ | ⟨handle, callback, hat⟩
      · rw [hpc] at hnone
        cases hnone
      · obtain rfl := Option.some.inj (hpc.symm.trans hat)
        cases hexec
      · obtain rfl := Option.some.inj (hpc.symm.trans hat)
        cases hexec
  | trying _ _ _ hacts =>
      refine .failed (by simp [Process.setThread]) (forall_mem_concat ?_ ?_)
      · exact fun tr htr => ⟨(hacts tr htr).1, (hacts tr htr).2.2⟩
      · refine ⟨⟨rfl, rfl, rfl, fun entry => ?_⟩, Transition.not_succeeds_of_error rfl⟩
        simp [Transition.submission?, Process.setThread]

/-- A submit that is still tried finds its core, or is accepted. -/
theorem Phase.tries {found : StitchCommandBatch} {callback : Bool}
    (hpc : (p.threads thread).pc = some pc) (hexecutes : p.Executes thread pc q progress)
    (hbatch : batch = some found)
    (hsubmit : (∃ core, pc = .lookup core (.submit found callback)) ∨
      ∃ entry, pc = .locked entry (.submit found callback))
    (hacts : ∀ tr ∈ acts, tr.Untouched ∧ tr.Sound ∧ ∀ diff, ¬ tr.Succeeds diff) :
    Phase batch (acts ++ [.ofSection p thread q progress])
      ((Transition.ofSection p thread q progress).after.threads thread) := by
  have hthreads := Transition.threads_ofSection p thread q progress
  obtain ⟨core, rfl⟩ | ⟨entry, rfl⟩ := hsubmit
  · cases hexecutes with
    | counted htables => cases htables
    | @lookup _ _ entry hbound =>
        have hafter := congrArg Thread.pc hthreads
        refine .trying hafter hbatch (.inr ⟨entry, rfl⟩) (forall_mem_concat hacts ?_)
        refine ⟨⟨rfl, rfl, rfl, fun entry => ?_⟩, .of_pending rfl,
          Transition.not_succeeds_of_pc rfl hafter⟩
        simp [Transition.ofSection, Transition.submission?, hpc]
  · cases hexecutes with
    | counted htables => cases htables
    | locked hcore haccess =>
        cases haccess.serves with
        | @submit _ _ core' metadata haccepts =>
            have hafter := congrArg Thread.pc hthreads
            refine @Phase.accepted _ _ _ (found, metadata) hbatch (.inr (.inl ⟨callback, hafter⟩))
              ⟨_, List.mem_concat_self, entry, ?_⟩
              (forall_mem_concat (fun tr htr => ⟨(hacts tr htr).2.1, fun diff hsucceeds =>
                absurd hsucceeds ((hacts tr htr).2.2 diff)⟩) ⟨.of_pending rfl, ?_⟩)
            · simp [Transition.ofSection, Transition.submission?, hpc, Process.setThread,
                Progress.leaves]
            · exact fun diff hsucceeds =>
                absurd hsucceeds (Transition.not_succeeds_of_pc rfl hafter diff)

/-- A submit that was accepted takes a handle for its diff, and hands it
over. -/
theorem Phase.delivers {submission : StitchCommandBatch × StitchDiffMetadata}
    (hpc : (p.threads thread).pc = some pc) (hexecutes : p.Executes thread pc q progress)
    (hbatch : batch = some submission.1)
    (hat : (∃ callback, pc = .allocateDiff submission.2 callback) ∨
      ∃ handle callback, pc = .insertDiff handle submission.2 callback)
    (haccepted : ∃ tr ∈ acts, ∃ entry, tr.submission? entry = some submission)
    (hacts : ∀ tr ∈ acts, tr.Sound ∧
      ∀ diff, tr.Succeeds diff → tr.after.diffs[diff]? = some ⟨submission.2, 1⟩) :
    Phase batch (acts ++ [.ofSection p thread q progress])
      ((Transition.ofSection p thread q progress).after.threads thread) := by
  have hthreads := Transition.threads_ofSection p thread q progress
  have haccepted : ∃ tr ∈ acts ++ [.ofSection p thread q progress], ∃ entry,
      tr.submission? entry = some submission := by
    obtain ⟨tr, htr, hsubmission⟩ := haccepted
    exact ⟨tr, List.mem_append_left _ htr, hsubmission⟩
  obtain ⟨callback, rfl⟩ | ⟨handle, callback, rfl⟩ := hat
  · cases hexecutes with
    | counted htables => cases htables
    | allocateDiff =>
        have hafter := congrArg Thread.pc hthreads
        refine .accepted hbatch (.inr (.inr ⟨p.freshHandle, callback, hafter⟩)) haccepted
          (forall_mem_concat hacts ⟨.of_pending rfl, fun diff hsucceeds => ?_⟩)
        exact absurd hsucceeds (Transition.not_succeeds_of_pc rfl hafter diff)
  · cases hexecutes with
    | counted htables => cases htables
    | insertDiff hprogress =>
        subst hprogress
        refine .accepted hbatch (.inl ?_) haccepted (forall_mem_concat hacts ⟨?_, ?_⟩)
        · rw [hthreads]
          cases callback <;> rfl
        · intro error output hreturned
          cases callback <;> cases hreturned
          rfl
        · rintro diff (hreturned | ⟨hreturned, hthread⟩)
          · cases callback <;> cases hreturned
            exact Std.ExtTreeMap.getElem?_insert_self
          · have hthread := hthreads.symm.trans hthread
            cases callback <;> cases hreturned
            cases hthread
            exact Std.ExtTreeMap.getElem?_insert_self

/-- How a submit goes on. -/
theorem Phase.advance {tr : Transition} {p' : Process}
    (h : Phase batch acts (p.threads thread)) (hjoins : Transition.Joins p tr p')
    (hadvance : tr.label.action = .advance thread) :
    Phase batch (acts ++ [tr]) (p'.threads thread) := by
  obtain ⟨before, ⟨action, returned⟩, after⟩ := tr
  obtain ⟨rfl, rfl, hstep⟩ := hjoins
  obtain rfl : action = _ := hadvance
  have htakes : before.Takes _ after := hstep.takes
  cases htakes with
  | fail hpc hexec => exact h.fails hpc hexec
  | run hpc hexecutes =>
      cases h with
      | failed hnone =>
          rw [hpc] at hnone
          cases hnone
      | trying hat hbatch hsubmit hacts =>
          obtain rfl := Option.some.inj (hpc.symm.trans hat)
          exact .tries hpc hexecutes hbatch hsubmit hacts
      | accepted hbatch hat haccepted hacts =>
          refine .delivers hpc hexecutes hbatch ?_ haccepted hacts
          rcases hat with hnone | ⟨callback, hat⟩ | ⟨handle, callback, hat⟩
          · rw [hpc] at hnone
            cases hnone
          · exact .inl ⟨callback, Option.some.inj (hpc.symm.trans hat)⟩
          · exact .inr ⟨handle, callback, Option.some.inj (hpc.symm.trans hat)⟩

end Phases

/-- The phase that a submit has reached. -/
theorem Submits.phase {thread : ThreadId} {batch : Option StitchCommandBatch}
    {first : Transition} {rest : List Transition} {p p' : Process}
    (h : Submits thread batch first rest) (hjoins : Transition.Joins p first p')
    {p'' : Process} (hrun : Runs Transition.Joins p' rest p'') :
    Phase batch (actsOf thread (first :: rest)) (p''.threads thread) := by
  obtain ⟨core, callback, outDiff, hbegin⟩ := h.begins
  have hfirst : actsOf thread [first] = [first] := by simp [actsOf, hbegin, Action.thread]
  have hbusy := h.busy
  induction hrun with
  | nil =>
      rw [hfirst]
      exact .of_begin hjoins hbegin
  | @snoc rest q q' tr _ hjoins' ih =>
      have ih := ih ⟨h.begins, fun tr htr => hbusy tr (List.mem_append_left _ htr)⟩
        fun tr htr => hbusy tr (List.mem_append_left _ htr)
      rw [← List.cons_append, actsOf_append]
      by_cases hthread : tr.label.action.thread = thread
      · have hacts : actsOf thread [tr] = [tr] := by simp [actsOf, hthread]
        rw [hacts]
        exact ih.advance hjoins' (hbusy tr (by simp) hthread)
      · have hacts : actsOf thread [tr] = [] := by simp [actsOf, hthread]
        rw [hacts, List.append_nil, hjoins'.threads_ne (Ne.symm hthread)]
        exact ih

/-- **A submit that fails leaves nothing behind.** -/
theorem Submits.untouched {thread : ThreadId} {batch : Option StitchCommandBatch}
    {front rest : List Transition} {first last : Transition} (h : Submits thread batch first rest)
    (hrun : Recorded (front ++ first :: rest) p) (hlast : last ∈ actsOf thread (first :: rest))
    {error : StitchResult} {output : Output}
    (hreturned : last.label.returned = some (error, output))
    (herror : error ≠ .ok) : ∀ tr ∈ actsOf thread (first :: rest), tr.Untouched := by
  obtain ⟨-, hjoins, hrest⟩ := hrun.split
  cases h.phase hjoins hrest with
  | trying _ _ _ hacts => exact absurd ((hacts last hlast).2.1 hreturned) herror
  | failed _ hacts => exact fun tr htr => (hacts tr htr).1
  | accepted _ _ _ hacts => exact absurd ((hacts last hlast).1 hreturned) herror

/-- **A submit that hands over a diff was accepted**, and the diff is that of
its batch. -/
theorem Submits.accepted {thread : ThreadId} {batch : Option StitchCommandBatch}
    {front rest : List Transition} {first last : Transition} (h : Submits thread batch first rest)
    (hrun : Recorded (front ++ first :: rest) p) (hlast : last ∈ actsOf thread (first :: rest))
    {diff : UInt64} (hsucceeds : last.Succeeds diff) :
    ∃ tr ∈ actsOf thread (first :: rest), ∃ entry submission,
      tr.submission? entry = some submission ∧ batch = some submission.1 ∧
        last.after.diffs[diff]? = some ⟨submission.2, 1⟩ := by
  obtain ⟨-, hjoins, hrest⟩ := hrun.split
  cases h.phase hjoins hrest with
  | trying _ _ _ hacts => exact absurd hsucceeds ((hacts last hlast).2.2 diff)
  | failed _ hacts => exact absurd hsucceeds ((hacts last hlast).2 diff)
  | accepted hbatch _ haccepted hacts =>
      obtain ⟨tr, htr, entry, hsubmission⟩ := haccepted
      exact ⟨tr, htr, entry, _, hsubmission, hbatch, (hacts last hlast).2 diff hsucceeds⟩

/-! ## the log -/

/-- What submits make of the core of the entry. -/
structure SubmitLog (trs : List Transition) (p : Process) (entry : Nat) : Prop where
  history : ∀ ⦃core⦄, p.heap[entry]? = some core →
    (logOf (submissions trs entry)).foldlM EditorHistory.applied .default = .ok core.history
  diffs : DiffChain (submissions trs entry)
  unseen : ∀ ⦃front mid back earlier tr⦄, trs = front ++ earlier :: (mid ++ tr :: back) →
    ∀ ⦃core submission⦄, earlier.before.heap[entry]? = some core →
      tr.submission? entry = some submission → submission.1.expectedRevision = core.revision →
      ∀ tr' ∈ earlier :: mid, tr'.submission? entry = none
  failed : ∀ ⦃front rest first last thread batch⦄, trs = front ++ first :: rest →
    Submits thread batch first rest → last ∈ actsOf thread (first :: rest) →
    ∀ ⦃error output⦄, last.label.returned = some (error, output) → error ≠ .ok →
      ∀ tr ∈ actsOf thread (first :: rest), tr.Untouched
  accepted : ∀ ⦃front rest first last thread batch⦄, trs = front ++ first :: rest →
    Submits thread batch first rest → last ∈ actsOf thread (first :: rest) →
    ∀ ⦃diff⦄, last.Succeeds diff →
      ∃ tr ∈ actsOf thread (first :: rest), ∃ entry submission,
        tr.submission? entry = some submission ∧ batch = some submission.1 ∧
          last.after.diffs[diff]? = some ⟨submission.2, 1⟩

/-- **Submit keeps a log and loses no update.** -/
theorem submits_log (hrun : Recorded trs p) (hhonest : ∀ tr ∈ trs, tr.Honest)
    (hapart : RevisionsApart (logOf (submissions trs entry))) : SubmitLog trs p entry where
  history _ hcore := ((hrun.logged entry).logs hcore).foldlM_default
  diffs := (hrun.logged entry).linked.diffChain
  unseen _ _ _ _ _ htrs _ _ hcore hsubmission hexpected := by
    subst htrs
    exact hrun.unseen hhonest hapart hcore hsubmission hexpected
  failed _ _ _ _ _ _ htrs hsubmits hlast _ _ hreturned herror := by
    subst htrs
    exact hsubmits.untouched hrun hlast hreturned herror
  accepted _ _ _ _ _ _ htrs hsubmits hlast _ hsucceeds := by
    subst htrs
    exact hsubmits.accepted hrun hlast hsucceeds

end Submission

section Schedule

/-! ## a run -/

/-- The digest of the project with both tracks. -/
def twoTracksDigest : StitchDigest := StitchEditor.twoTracksDigest.bytes

def projectOf (commands : List Command) : Project := (replay commands).toOption.getD .default

@[reducible] def submitSha256 : Sha256 :=
  .ofKnown [(revisionBytes none addFirstTrack, firstTrackHash.bytes),
    (revisionBytes firstTrackHash addSecondTrack, secondTrackHash.bytes),
    ((projectOf [addFirstTrack]).canonicalBytes, firstTrackDigest.bytes),
    ((projectOf twoTracks).canonicalBytes, twoTracksDigest)]

/-- The raw command that adds a track whose id repeats the byte. -/
def addTrackRaw (byte : UInt8) : StitchCommand where
  header := header commandSize
  kind := 2
  reserved := 0
  primaryId := Vector.replicate 16 byte
  secondaryId := Vector.replicate 16 0
  tertiaryId := Vector.replicate 16 0
  contentSha256 := Vector.replicate 32 0
  byteLength := 0
  providerId := Vector.replicate 16 0
  timelineRange := ⟨⟨0, 0⟩, ⟨0, 0⟩⟩
  sourceRange := ⟨⟨0, 0⟩, ⟨0, 0⟩⟩

/-- A batch of epoch 0 that adds one track. -/
def addTrackBatch (byte : UInt8) (expected : Option RevisionHash) : StitchCommandBatch where
  header := header commandBatchSize
  commands := some [addTrackRaw byte]
  commandCount := 1
  reserved := 0
  expectedRevision := digest expected
  epoch := 0

/-- A thread creates the core 1 and adds two tracks; the second is refused
while it expects the revision before the first. -/
def submitLabels : List Label :=
  [.pending (.begin 0 (.coreCreate (some ⟨header coreConfigSize, 0⟩) true)),
    .pending (.advance 0),
    ⟨.advance 0, some (.ok, .handle 1)⟩,
    .pending (.begin 0 (.coreSubmit 1 (some (addTrackBatch 0x2a none)) false true)),
    .pending (.advance 0),
    .pending (.advance 0),
    .pending (.advance 0),
    ⟨.advance 0, some (.ok, .handle 2)⟩,
    .pending (.begin 0 (.coreSubmit 1 (some (addTrackBatch 0x2b none)) false true)),
    .pending (.advance 0),
    ⟨.advance 0, some (.staleRevision, .none)⟩,
    .pending (.begin 0 (.coreSubmit 1 (some (addTrackBatch 0x2b firstTrackHash)) false true)),
    .pending (.advance 0),
    .pending (.advance 0),
    .pending (.advance 0),
    ⟨.advance 0, some (.ok, .handle 3)⟩]

theorem isSome_submitLabels :
    letI := submitSha256
    (Process.initial.recorded submitLabels).isSome := by
  decide +kernel

/-- The process after both tracks. -/
def submitted : List Transition × Process :=
  letI := submitSha256
  (Process.initial.recorded submitLabels).get isSome_submitLabels

theorem honest_addTrackBatch (byte : UInt8) (expected : Option RevisionHash) :
    (addTrackBatch byte expected).Honest := by
  rintro raws ⟨⟩
  rfl

theorem honest_submitLabels {tr : Transition} (h : tr.label ∈ submitLabels) : tr.Honest := by
  have hlabels : ∀ label ∈ submitLabels, ∀ thread core batch callback outDiff,
      label.action = .begin thread (.coreSubmit core (some batch) callback outDiff) →
        batch.Honest := by
    simp +contextual [submitLabels, Label.pending, honest_addTrackBatch, eq_comm]
  exact fun thread core batch callback outDiff => hlabels _ h thread core batch callback outDiff

theorem labels_submitted : submitted.1.map Transition.label = submitLabels := rfl

theorem logOf_submitted : logOf (submissions submitted.1 0) = twoTracks := by
  decide +kernel

theorem revisionsApart_twoTracks :
    letI := submitSha256
    RevisionsApart twoTracks := by
  let _ := submitSha256
  refine ⟨?_, ?_⟩
  · unfold Sha256.SeparatesChains Sha256.Separates
    decide +kernel
  · decide +kernel

theorem submits_log_submitLabels :
    letI := submitSha256
    logOf (submissions submitted.1 0) = twoTracks ∧ SubmitLog submitted.1 submitted.2 0 := by
  let _ := submitSha256
  have hrun : Recorded submitted.1 submitted.2 :=
    Process.runs_of_recorded (Option.some_get isSome_submitLabels).symm
  refine ⟨logOf_submitted, submits_log hrun ?_ ?_⟩
  · intro tr htr
    exact honest_submitLabels (labels_submitted ▸ List.mem_map_of_mem htr)
  · rw [logOf_submitted]
    exact revisionsApart_twoTracks

end Schedule

end StitchEditor.Abi
