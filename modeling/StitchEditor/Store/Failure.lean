import Mathlib
import StitchEditor.Store.Client
import StitchEditor.Store.ExactlyOnce
import StitchEditor.Store.Retry

/-!
# StitchEditor.Store.Failure

What a failed snapshot blocks.

`maintenance_failure` is set where `worker_main` sees `persist_snapshot`
fail, and from then on a worker answers receipt lookups only.  `Watch`
follows a run and remembers what the calls of `persist_snapshot` returned,
whoever made them: the two agree as long as no compaction is the caller
(`snapshot_failure_blocks_commits`).
-/

namespace StitchEditor

open Chain Fallible Procedure Run Std

/-! ## the snapshot's statements -/

/-- How a sequence of calls is cut short, if it is. -/
def Env.interruption (env : Env) : List Site → Verdict
  | [] => .completes
  | site :: sites =>
      match env.verdict site with
      | .completes => env.interruption sites
      | verdict => verdict

section Failure

variable [Sha256]

/-- The statements that `persist_snapshot` executes. -/
def State.snapshotSites (s : State) : List Site :=
  if s.sequence = 0 then []
  else .selectSnapshotExists ::
    if ∃ head ∈ s.head, ⟨s.sequence, head.bytes.toList⟩ ∈ s.connection.snapshots then []
    else [.beginSnapshot, .insertSnapshot, .commitSnapshot]

variable {s : State} {commands : List Command} {env : Env}

/-- What a procedure without other errors ends with. -/
def Verdict.result {α : Type} (error : StoreError) (a : α) : Verdict → Except Stop α
  | .completes => .ok a
  | .fails => raise error
  | .crashes => .error .crash

theorem State.Tracks.stageSnapshot_eq (ht : s.Tracks commands) {head : RevisionHash}
    (hhead : s.head = some head) (env : Env) :
    ∃ rows, mapErr (.maintenance .snapshot) (stageSnapshot s head env) =
      (env.interruption [.beginSnapshot, .insertSnapshot, .commitSnapshot]).result
        (.maintenance .snapshot) rows := by
  obtain ⟨rows, hrows⟩ := Database.exists_insertOrIgnoreSnapshot
    ⟨s.sequence, head.bytes.toList⟩
    ⟨s.project.canonicalBytes, s.project.semanticDigest.bytes.toList⟩ (ht.references hhead)
  refine ⟨rows, ?_⟩
  unfold stageSnapshot execute
  rw [hrows]
  cases hbegin : env.verdict .beginSnapshot <;> cases hinsert : env.verdict .insertSnapshot <;>
    cases hcommit : env.verdict .commitSnapshot <;>
      simp [Env.interruption, hbegin, hinsert, hcommit] <;> rfl

/-- **What `persist_snapshot` returns**: where memory is that of the rows, it
fails exactly when a statement does. -/
theorem State.Tracks.persistSnapshot_result (ht : s.Tracks commands) (env : Env) :
    (persistSnapshot none env s).1 =
      (env.interruption s.snapshotSites).result (.maintenance .snapshot) () := by
  change Ensures (persistSnapshot none env) s fun result _ => result = _
  refine Ensures.get_bind ?_
  by_cases hempty : s.sequence = 0
  · rw [if_pos hempty, State.snapshotSites, if_pos hempty]
    exact .pure rfl
  rw [if_neg hempty, State.snapshotSites, if_neg hempty]
  refine Ensures.ok_bind ?_
  cases hhead : s.head with
  | none =>
      -- revisions have a head
      rw [ht.head, chain_eq_none_iff] at hhead
      rw [ht.sequence, hhead] at hempty
      exact absurd rfl hempty
  | some head =>
      simp only [Option.mem_some_iff, exists_eq_left', execute, Env.interruption]
      cases hselect : env.verdict .selectSnapshotExists with
      | fails => exact .lift rfl
      | crashes => exact .lift rfl
      | completes =>
          refine Ensures.ok_bind ?_
          split
          · exact .pure rfl
          · obtain ⟨rows, hrows⟩ := ht.stageSnapshot_eq hhead env
            refine Ensures.ok_bind ?_
            rw [hrows]
            cases env.interruption [.beginSnapshot, .insertSnapshot, .commitSnapshot] with
            | completes => exact Ensures.ok_bind (Ensures.set_bind (.lift rfl))
            | fails => exact .lift rfl
            | crashes => exact .lift rfl

/-! ## a worker with a failure -/

variable {w : World} {error : MaintenanceError}

omit [Sha256] in
theorem ensures_unlessFailed_some {α : Type} {x : Proc Stop State α}
    (h : s.maintenanceFailure = some error) :
    Ensures (unlessFailed x) s fun result s' =>
      result = raise (.maintenance error) ∧ s' = s := by
  refine Ensures.get_bind ?_
  rw [h]
  exact .lift ⟨rfl, rfl⟩

omit [Sha256] in
theorem ensures_send_bind {reply : Reply} {Q : Except Stop Bool → World → Prop}
    (h : ∀ r w', w'.state = w.state → Q r w') : Ensures (do send reply env; pure true) w Q :=
  (ensures_send reply env w).bind (fun _ _ hsent => h _ _ hsent.1) fun _ _ hsent =>
    .pure (h _ _ hsent.1)

/-- **A worker with a failure** leaves rows and memory alone, whatever it is
asked. -/
theorem ensures_handle_failed (hfailed : w.state.maintenanceFailure = some error) (work : Work) :
    Ensures (handle work env) w fun _ w' => w'.state = w.state := by
  cases work with
  | commit requestId command fault =>
      refine Ensures.get_bind ?_
      rw [hfailed]
      exact ensures_send_bind fun _ _ h => h
  | receipt requestId =>
      refine Ensures.get_bind ((ensures_call (P := fun _ w' => w' = w) (.lift rfl)).bind ?_ ?_)
      · rintro _ _ ⟨_, rfl, -⟩
        rfl
      · rintro _ _ ⟨_, rfl, -⟩
        exact ensures_send_bind fun _ _ h => h
  | snapshot fault =>
      refine (ensures_call (ensures_onState (ensures_unlessFailed_some hfailed))).bind ?_ ?_
      · rintro _ w₁ ⟨_, ⟨⟨-, h⟩, -⟩, -⟩
        exact h
      · rintro _ w₁ ⟨_, ⟨⟨rfl, h⟩, -⟩, hsettle⟩
        cases hsettle
        -- the failure that is noted is the one that is there
        refine (ensures_onState (P := fun _ s' => s' = w.state) ?_).bind ?_ ?_
        · rw [h]
          change { w.state with maintenanceFailure := some error } = w.state
          rw [← hfailed]
        · exact fun _ _ h => h.1
        · rintro _ w₂ ⟨h, -⟩
          exact ensures_send_bind fun _ _ h' => h'.trans h
  | checkpoint fault | compact fault =>
      refine (ensures_call (ensures_onState (ensures_unlessFailed_some hfailed))).bind ?_ ?_
      · rintro _ w₁ ⟨_, ⟨⟨-, h⟩, -⟩, -⟩
        exact h
      · rintro _ w₁ ⟨_, ⟨⟨rfl, h⟩, -⟩, -⟩
        exact ensures_send_bind fun _ _ h' => h'.trans h
  | archive destination fault =>
      refine Ensures.get_bind ?_
      rw [hfailed]
      exact ensures_send_bind fun _ _ h => h
  | shutdown => exact .pure rfl

/-- Serving a message, from a worker that owes no reply. -/
theorem handle_failed (hfailed : w.state.maintenanceFailure = some error) (work : Work)
    (env : Env) : (handle work env { w with reply := none }).2.state = w.state := by
  have hhandle : Ensures (handle work env) { w with reply := none } fun _ w' =>
      w'.state = w.state := ensures_handle_failed (w := { w with reply := none }) hfailed work
  exact hhandle

/-! ## a ghost of `persist_snapshot` -/

/-- What the call of `persist_snapshot` returns that serving the message
makes, if it makes one. -/
def World.snapshotCall? (world : World) (work : Work) (env : Env) : Option (Except Stop Unit) :=
  match world.state.maintenanceFailure, work with
  | some _, _ => none
  | none, .commit requestId command fault =>
      match commit requestId command fault env world.state with
      | (.ok _, s) =>
          if s.sequence.tmod snapshotInterval = 0 ∧ env.verdict .respond ≠ .crashes then
            some (persistSnapshot none env s).1
          else none
      | (.error _, _) => none
  | none, .snapshot fault => some (persistSnapshot fault env world.state).1
  | none, .compact fault =>
      if fault = some .beforeCompaction then none else some (persistSnapshot none env world.state).1
  | none, _ => none

/-- It returns `StoreError::Maintenance`. -/
def World.SnapshotFails (world : World) (work : Work) (env : Env) : Prop :=
  ∃ error, world.snapshotCall? work env = some (raise (.maintenance error))

/-- A run, and whether a snapshot has failed since the store was opened. -/
structure Watch where
  node : Node
  failed : Prop

/-- What an event adds to the watch. -/
inductive Watch.Step : Watch → Event → Watch → Prop where
  | message {world : World} {failed : Prop} {work : Work} {env : Env} {node : Node}
      (hstep : (Node.running world).Step (.message work env) node) :
      Step ⟨.running world, failed⟩ (.message work env)
        ⟨node, failed ∨ world.SnapshotFails work env⟩
  | crash {world : World} {failed : Prop} {node : Node}
      (hstep : (Node.running world).Step .crash node) : Step ⟨.running world, failed⟩ .crash
        ⟨node, failed⟩
  | reopen {rows : Database} {files : Files} {failed : Prop} {path : Path} {env : Env} {node : Node}
      (hstep : (Node.down rows files).Step (.reopen path env) node) :
      Step ⟨.down rows files, failed⟩ (.reopen path env) ⟨node, False⟩

/-- A compaction that gets as far as its snapshot does not fail there. -/
def Node.CompactionUnfailing : Node → Event → Prop
  | .running world, .message (.compact fault) env =>
      world.state.maintenanceFailure = none → fault ≠ some .beforeCompaction →
        env.interruption world.state.snapshotSites ≠ .fails
  | _, _ => True

omit [Sha256] in
theorem isSome_of_noteFailure {result : Except Stop Unit} {answer : Except StoreError Unit}
    (hfails : result = raise (.maintenance error)) (hsettle : .ok answer = settle result)
    {Q : Except Stop Bool → World → Prop} {next : Proc Stop World Bool}
    (hnext : ∀ w', w'.state.maintenanceFailure.isSome → Ensures next w' Q) :
    Ensures (do onState (noteFailure answer); next) w Q := by
  subst hfails
  cases hsettle
  refine (ensures_onState (P := fun result s' => result = .ok () ∧
    s'.maintenanceFailure.isSome) ⟨rfl, rfl⟩).bind ?_ ?_
  · rintro _ _ ⟨⟨⟨⟩, -⟩, -⟩
  · rintro _ w' ⟨⟨-, h⟩, -⟩
    exact hnext w' h

/-- A failed snapshot is remembered, unless a compaction asked for it. -/
theorem ensures_handle_noted {work : Work} (hwork : ∀ fault, work ≠ .compact fault)
    (hfails : w.SnapshotFails work env) : Ensures (handle work env) w fun result w' =>
      result = .ok true → w'.state.maintenanceFailure.isSome := by
  obtain ⟨error, hcall⟩ := hfails
  unfold World.snapshotCall? at hcall
  split at hcall
  · cases hcall
  · next requestId command fault hnone =>
    refine Ensures.get_bind ?_
    rw [hnone]
    have hself := Ensures.self (commit requestId command fault env) w.state
    refine (ensures_call (ensures_onState hself)).bind (fun _ _ _ => nofun) ?_
    rintro answer w₁ ⟨result, ⟨hcommit, -⟩, hsettle⟩
    rw [hcommit] at hcall
    cases result with
    | error => cases hcall
    | ok receipt =>
        cases hsettle
        obtain ⟨⟨hdue, hrespond⟩, hcall⟩ := Option.ite_none_right_eq_some.mp hcall
        refine Ensures.get_bind ((ensures_send _ env w₁).bind (fun _ _ _ => nofun) ?_)
        rintro _ w₂ ⟨hstate, -⟩
        have hsnapshot := Ensures.self (persistSnapshot none env) w₁.state
        rw [if_pos ⟨rfl, hdue⟩]
        refine (ensures_call (ensures_onState (hstate ▸ hsnapshot))).bind (fun _ _ _ => nofun) ?_
        rintro answer w₃ ⟨result, ⟨hresult, -⟩, hsettle⟩
        rw [← hstate, hresult] at hcall
        exact isSome_of_noteFailure (Option.some.inj hcall) hsettle fun _ h => .pure fun _ => h
  · next fault hnone =>
    have hsnapshot : Ensures (unlessFailed (persistSnapshot fault env)) w.state fun result s =>
        persistSnapshot fault env w.state = (result, s) := by
      refine Ensures.get_bind ?_
      rw [hnone]
      exact .self _ _
    refine (ensures_call (ensures_onState hsnapshot)).bind (fun _ _ _ => nofun) ?_
    rintro answer w₁ ⟨result, ⟨hresult, -⟩, hsettle⟩
    rw [hresult] at hcall
    refine isSome_of_noteFailure (Option.some.inj hcall) hsettle fun w₂ h => ?_
    exact ensures_send_bind fun _ _ hstate _ => hstate ▸ h
  · exact absurd rfl (hwork _)
  · cases hcall

theorem State.Tracks.not_snapshotFails_compact (ht : w.state.Tracks commands)
    {fault : Option FaultPoint}
    (hunfailing : (Node.running w).CompactionUnfailing (.message (.compact fault) env)) :
    ¬ w.SnapshotFails (.compact fault) env := by
  rintro ⟨error, hcall⟩
  unfold World.snapshotCall? at hcall
  cases hfailed : w.state.maintenanceFailure with
  | some => simp [hfailed] at hcall
  | none =>
      simp only [hfailed, Option.ite_none_left_eq_some, Option.some.injEq] at hcall
      obtain ⟨hfault, hcall⟩ := hcall
      have hinterruption := hunfailing hfailed hfault
      rw [ht.persistSnapshot_result] at hcall
      cases h : env.interruption w.state.snapshotSites with
      | completes | crashes => simp [h, Verdict.result, raise] at hcall
      | fails => exact hinterruption h

/-! ## runs -/

/-- The worker goes on after a message. -/
theorem Node.message_running_iff {world world' : World} {work : Work} :
    (Node.running world).Step (.message work env) (.running world') ↔
      handle work env { world with reply := none } = (.ok true, world') := by
  simp only [Node.Step, Node.step]
  split
  · next heq => simp [heq]
  · next hne heq =>
    simp only [heq, World.exit, Option.some.injEq, reduceCtorEq, Prod.mk.injEq, false_iff]
    exact fun h => hne h.1

theorem Watch.step_message {world : World} {failed : Prop} {work : Work}
    (hhandle : (handle work env { world with reply := none }).1 = .ok true) :
    Watch.Step ⟨.running world, failed⟩ (.message work env)
      ⟨.running (handle work env { world with reply := none }).2,
        failed ∨ world.SnapshotFails work env⟩ :=
  .message (Node.message_running_iff.mpr (Prod.ext hhandle rfl))

/-- A step of a run whose compactions do not fail at their own snapshot. -/
def Watch.StepUnfailing (watch : Watch) (event : Event) (watch' : Watch) : Prop :=
  watch.node.CompactionUnfailing event ∧ watch.Step event watch'

theorem Watch.stepUnfailing_message {world : World} {failed : Prop} {work : Work}
    (hhandle : (handle work env { world with reply := none }).1 = .ok true)
    (hwork : ∀ fault, work ≠ .compact fault) : Watch.StepUnfailing
      ⟨.running world, failed⟩ (.message work env)
      ⟨.running (handle work env { world with reply := none }).2,
        failed ∨ world.SnapshotFails work env⟩ := by
  refine ⟨?_, Watch.step_message hhandle⟩
  unfold Node.CompactionUnfailing
  split
  · next heq =>
    cases heq
    exact absurd rfl (hwork _)
  · trivial

/-- The worker knows of every failed snapshot. -/
structure Watch.Agrees (watch : Watch) : Prop where
  tracks : ∃ commands, watch.node.Tracks commands
  noted : watch.failed → ∀ {world : World}, watch.node = .running world →
    world.state.maintenanceFailure.isSome

variable {watch watch' : Watch} {event : Event}

theorem Watch.Agrees.step (h : watch.Agrees) (hunfailing : watch.node.CompactionUnfailing event)
    (hstep : watch.Step event watch') : watch'.Agrees := by
  obtain ⟨⟨commands, ht⟩, hnoted⟩ := h
  cases hstep with
  | @message world failed work env node hstep =>
      obtain ⟨added, -, ht'⟩ := ht.step hstep
      refine ⟨⟨_, ht'⟩, ?_⟩
      rintro hfailed world' rfl
      have hhandle := Node.message_running_iff.mp hstep
      obtain hfailed | hfails := hfailed
      · obtain ⟨error, herror⟩ := Option.isSome_iff_exists.mp (hnoted hfailed rfl)
        have hkept := handle_failed herror work env
        rw [hhandle] at hkept
        rw [hkept, herror]
        rfl
      · have hwork : ∀ fault, work ≠ .compact fault := by
          rintro fault rfl
          exact ht.not_snapshotFails_compact hunfailing hfails
        have hhandled := ensures_handle_noted (w := { world with reply := none }) hwork hfails
        exact hhandled.post hhandle rfl
  | crash hstep =>
      obtain ⟨added, -, ht'⟩ := ht.step hstep
      cases hstep
      refine ⟨⟨_, ht'⟩, fun _ _ hnode => ?_⟩
      simp [World.exit] at hnode
  | reopen hstep =>
      obtain ⟨added, -, ht'⟩ := ht.step hstep
      exact ⟨⟨_, ht'⟩, False.elim⟩

/-- **A failed snapshot blocks every later commit** until the store is
reopened, unless it was a compaction that failed at its own snapshot. -/
theorem snapshot_failure_blocks_commits {start : Node} {events : List Event} {world : World}
    {failed : Prop} (hstart : start.Restores)
    (hrun : Runs Watch.StepUnfailing ⟨start, False⟩ events ⟨.running world, failed⟩)
    (hfailed : failed)
    (requestId : RequestId) (command : Command) (fault : Option FaultPoint) (env : Env) :
    (handle (.commit requestId command fault) env
      { world with reply := none }).2.state.connection.revisions =
        world.state.connection.revisions := by
  have hinitial : Watch.Agrees ⟨start, False⟩ := ⟨Node.restores_iff.mp hstart, False.elim⟩
  have hagrees := hrun.invariant hinitial fun h hstep => Watch.Agrees.step h hstep.1 hstep.2
  obtain ⟨error, herror⟩ := Option.isSome_iff_exists.mp (hagrees.noted hfailed rfl)
  rw [handle_failed herror]

end Failure

section OneAsset

/-- A worker that has committed the first track. -/
def firstTrackWorld : World :=
  letI := oneClipSha256
  (handle firstTrackWork .faultless emptyWorld).2

theorem watch_firstTrackWorld :
    letI := oneClipSha256
    ∃ failed, Runs Watch.StepUnfailing ⟨emptyNode, False⟩
      [.reopen ⟨true, ["store"]⟩ .faultless, .message firstTrackWork .faultless]
      ⟨.running firstTrackWorld, failed⟩ := by
  let _ := oneClipSha256
  have hopen : Watch.Step ⟨emptyNode, False⟩ (.reopen ⟨true, ["store"]⟩ .faultless)
      ⟨.running emptyWorld, False⟩ := .reopen rfl
  have hcommit : (handle firstTrackWork .faultless emptyWorld).1 = .ok true := by decide +kernel
  exact ⟨_, .snoc (.snoc .nil ⟨trivial, hopen⟩)
    (Watch.stepUnfailing_message hcommit (by simp [firstTrackWork]))⟩

/-- The next request, for the asset. -/
def oneAssetWork : Work := .commit ⟨Vector.replicate 16 2⟩ addOneAsset none

/-- The transaction of a snapshot does not commit. -/
def snapshotFailing : Env :=
  { Env.faultless with verdict := fun site =>
      if site = .commitSnapshot then .fails else .completes }

theorem snapshot_failure_blocks_commits_firstTrack :
    letI := oneClipSha256
    let world := (handle (.snapshot (some .beforeSnapshot)) .faultless
      { firstTrackWorld with reply := none }).2
    (handle oneAssetWork .faultless { world with reply := none }).2.state.connection.revisions =
      world.state.connection.revisions := by
  let _ := oneClipSha256
  obtain ⟨failed, hrun⟩ := watch_firstTrackWorld
  have hstart : emptyNode.Restores :=
    ⟨(Project.default, none, 0), by decide +kernel, by simp [emptyNode]⟩
  have hsnapshot : (handle (.snapshot (some .beforeSnapshot)) .faultless
      { firstTrackWorld with reply := none }).1 = .ok true := by decide +kernel
  have hfails : firstTrackWorld.SnapshotFails (.snapshot (some .beforeSnapshot)) .faultless :=
    ⟨.fault .beforeSnapshot, by decide +kernel⟩
  exact snapshot_failure_blocks_commits hstart
    (hrun.snoc (Watch.stepUnfailing_message hsnapshot (by simp))) (.inr hfails) _ _ _ _

/-- A snapshot fails inside a compaction, and the next commit goes through. -/
theorem commits_after_failed_compaction :
    letI := oneClipSha256
    ∃ events world failed, Runs Watch.Step ⟨emptyNode, False⟩ events ⟨.running world, failed⟩ ∧
      failed ∧ (handle oneAssetWork .faultless
        { world with reply := none }).2.state.connection.revisions ≠
          world.state.connection.revisions := by
  let _ := oneClipSha256
  obtain ⟨failed, hrun⟩ := watch_firstTrackWorld
  have hcompact : (handle (.compact none) snapshotFailing
      { firstTrackWorld with reply := none }).1 = .ok true := by decide +kernel
  have hfails : firstTrackWorld.SnapshotFails (.compact none) snapshotFailing :=
    ⟨.snapshot, by decide +kernel⟩
  refine ⟨_, _, _, (hrun.mono fun h => h.2).snoc (Watch.step_message hcompact), .inr hfails, ?_⟩
  decide +kernel

end OneAsset

end StitchEditor
