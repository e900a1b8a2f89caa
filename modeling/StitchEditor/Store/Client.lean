import Mathlib
import StitchEditor.Store.Messages

/-!
# StitchEditor.Store.Client

`ProjectStore::commit` as its callers see it, where nothing fails.

A worker without faults commits every new request whose command reduces
(`requestCommit_faultless`); the snapshots that it takes by itself, every
`snapshotInterval` revisions, do not get in the way.
-/

namespace StitchEditor

open Chain Fallible Procedure Std

section Client

variable [Sha256]

/-- `request_commit`, served at once; a reply that does not come is an error. -/
def requestCommit (requestId : RequestId) (command : Command) (fault : Option FaultPoint)
    (env : Env) (world : World) : Except StoreError CommitReceipt × World :=
  match (handle (.commit requestId command fault) env { world with reply := none }).2 with
  | ⟨state, files, some (.commit result)⟩ => (result, ⟨state, files, some (.commit result)⟩)
  | world => (.error .workerStopped, world)

variable {s : State} {commands : List Command} {requestId : RequestId} {command : Command}

/-! ## the transaction -/

/-- The revision of the next command passes the checks of its table. -/
theorem State.Tracks.revision_valid (ht : s.Tracks commands) (hfits : commands.length + 1 < 2 ^ 63)
    (command : Command) : (s.revision command).Valid (s.sequence + 1) where
  sequence_valid := by
    rw [ht.sequence]
    exact ⟨by omega, by omega⟩
  hash_length := by simp [State.revision]
  parent_length := by simp [State.revision]
  command_nonempty := by
    cases command <;> simp [State.revision, Command.canonicalBytes]
  first_iff := by
    rw [ht.sequence, State.revision, ht.head]
    cases commands using List.reverseRecOn with
    | nil => exact .inl ⟨rfl, rfl⟩
    | append_singleton commands last _ =>
        refine .inr ⟨by simp, ?_⟩
        simp [chain_concat]

/-- The transaction of a new request goes through. -/
theorem State.Tracks.transact_faultless (ht : s.Tracks commands)
    (hfits : commands.length + 1 < 2 ^ 63) (hfresh : requestId.bytes.toList ∉ s.connection.receipts)
    (command : Command) :
    ∃ rows, transact s (s.receipt requestId command) command none .faultless = .ok rows := by
  have hvalid := ht.revision_valid hfits command
  have hnew : s.sequence + 1 ∉ s.connection.revisions := by
    rw [mem_revisions_iff ht.holds.spells, ht.sequence]
    omega
  obtain ⟨rows₁, hrevision⟩ : ∃ rows, s.connection.insertRevision (s.sequence + 1)
      (s.revision command) = some rows := ⟨_, dif_pos ⟨hnew, hvalid⟩⟩
  obtain ⟨-, -, h₁⟩ := Database.insertRevision_eq_some_iff.mp hrevision
  have href₁ : rows₁.References (s.sequence + 1) (revisionHash s.head command).bytes.toList := by
    rw [Tables.References, h₁]
    simp [State.revision]
  obtain ⟨rows₂, hreceipt⟩ : ∃ rows, rows₁.insertReceipt requestId.bytes.toList
      (s.receiptRow command) = some rows := by
    refine ⟨_, dif_pos ⟨?_, ⟨by simp, by simp [State.receiptRow], hvalid.sequence_valid,
      hvalid.command_nonempty⟩, href₁⟩⟩
    rw [h₁]
    exact hfresh
  obtain ⟨-, -, -, h₂⟩ := Database.insertReceipt_eq_some_iff.mp hreceipt
  have href₂ : rows₂.References (s.sequence + 1) (revisionHash s.head command).bytes.toList := by
    rw [Tables.References, h₂]
    exact href₁
  obtain ⟨rows₃, hhead⟩ : ∃ rows, rows₂.upsertHead
      ⟨s.sequence + 1, (revisionHash s.head command).bytes.toList⟩ = some rows :=
    ⟨_, dif_pos ⟨⟨hvalid.sequence_valid, by simp⟩, href₂⟩⟩
  refine ⟨rows₃, ?_⟩
  simp only [transact, bind_eq_ok_iff, constrained_eq_ok_iff, pure_eq_ok_iff, execute_faultless]
  exact ⟨(), ⟨⟩, (), ⟨⟩, rows₁, hrevision, (), ⟨⟩, rows₂, hreceipt, (), ⟨⟩, rows₃, hhead,
    (), rfl, (), ⟨⟩, rfl⟩

omit [Sha256] in
theorem receipt_faultless (hfresh : requestId.bytes.toList ∉ s.connection.receipts) :
    receipt s.connection requestId .faultless = .ok none := by
  have hnone : s.connection.receipts[requestId.bytes.toList]? = none := by simpa using hfresh
  rw [receipt, execute_faultless, hnone]
  rfl

/-- How a commit of a new request ends where nothing fails. -/
inductive State.CommitsFaultless (s : State) (requestId : RequestId) (command : Command) :
    Except Stop CommitReceipt → State → Prop where
  | appended {s' : State} (happends : s.Appends requestId command s') :
      s.CommitsFaultless requestId command (.ok (s.receipt requestId command)) s'
  | refused {error : ModelError} (hreduce : reduce s.project command = .error error) :
      s.CommitsFaultless requestId command (.error (.error (.model error))) s

theorem State.Tracks.ensures_commit_faultless (ht : s.Tracks commands)
    (hfits : commands.length + 1 < 2 ^ 63)
    (hfresh : requestId.bytes.toList ∉ s.connection.receipts) (command : Command) :
    Ensures (commit requestId command none .faultless) s
      (s.CommitsFaultless requestId command) := by
  have hsequence : s.sequence + 1 < 2 ^ 63 := by
    rw [ht.sequence]
    omega
  refine Ensures.get_bind (Ensures.lift_bind ?_ ?_) <;> rw [receipt_faultless hfresh]
  · nofun
  rintro found ⟨⟩
  refine Ensures.lift_bind ?_ fun next hnext => ?_
  · intro stop hstop
    unfold reduceModel at hstop
    split at hstop
    · cases hstop
    · next error hreduce =>
      cases hstop
      exact .refused hreduce
  · obtain ⟨rows, hrows⟩ := ht.transact_faultless hfits hfresh command
    rw [nextSequence, if_pos hsequence]
    refine Ensures.ok_bind ?_
    dsimp only
    rw [← State.receipt, hrows]
    exact Ensures.ok_bind (Ensures.set_bind (Ensures.ok_bind
      (.pure (.appended (appends_of_transact hnext hrows)))))

/-! ## the snapshot behind it -/

/-- The head's revision is there to be referenced. -/
theorem State.Tracks.references (ht : s.Tracks commands) {head : RevisionHash}
    (hhead : s.head = some head) : s.connection.References s.sequence head.bytes.toList := by
  have hagrees := ht.holds.head
  rw [HeadAgrees, ← ht.head, hhead, ← ht.sequence] at hagrees
  exact (s.connection.valid.heads hagrees).2

omit [Sha256] in
theorem Database.exists_insertOrIgnoreSnapshot {db : Database} (key : SnapshotKey)
    (row : SnapshotRow) (href : db.References key.sequence key.revisionHash) :
    ∃ rows, db.insertOrIgnoreSnapshot key row = some rows := by
  unfold Database.insertOrIgnoreSnapshot
  split
  · exact ⟨_, rfl⟩
  · exact ⟨db, rfl⟩

theorem State.Tracks.stageSnapshot_faultless (ht : s.Tracks commands) {head : RevisionHash}
    (hhead : s.head = some head) : ∃ rows, stageSnapshot s head .faultless = .ok rows := by
  obtain ⟨rows, hrows⟩ := Database.exists_insertOrIgnoreSnapshot
    ⟨s.sequence, head.bytes.toList⟩
    ⟨s.project.canonicalBytes, s.project.semanticDigest.bytes.toList⟩ (ht.references hhead)
  refine ⟨rows, ?_⟩
  simp only [stageSnapshot, execute_faultless, bind_eq_ok_iff, constrained_eq_ok_iff,
    pure_eq_ok_iff]
  exact ⟨(), ⟨⟩, (), ⟨⟩, rows, hrows, (), ⟨⟩, rfl⟩

/-- A snapshot that nothing stops changes the rows only. -/
theorem State.Tracks.ensures_persistSnapshot_faultless (ht : s.Tracks commands) :
    Ensures (persistSnapshot none .faultless) s fun result s' =>
      result = .ok () ∧ s.Maintains s' ∧ s'.maintenanceFailure = s.maintenanceFailure := by
  have hkept : (Except.ok () : Except Stop Unit) = .ok () ∧ s.Maintains s ∧
      s.maintenanceFailure = s.maintenanceFailure := ⟨rfl, .refl s, rfl⟩
  refine Ensures.get_bind ?_
  split
  · exact .pure hkept
  · next hsome =>
    refine Ensures.ok_bind ?_
    split
    · next hnone =>
      -- revisions have a head
      rw [ht.head, chain_eq_none_iff] at hnone
      rw [ht.sequence, hnone] at hsome
      exact absurd rfl hsome
    · next head hhead =>
      refine Ensures.ok_bind ?_
      split
      · exact .pure hkept
      · have hstages := ht.stageSnapshot_faultless hhead
        obtain ⟨rows, hrows⟩ := hstages
        refine Ensures.ok_bind ?_
        rw [hrows]
        exact Ensures.ok_bind (Ensures.set_bind
          (.lift ⟨rfl, stageSnapshot_maintains hhead hrows, rfl⟩))

/-- The snapshot behind a commit leaves no failure behind. -/
theorem ensures_automaticSnapshot_faultless (due : Prop) [Decidable due] {w : World}
    (ht : w.state.Tracks commands) :
    Ensures (do
      let snapshot ← call (onState (if due then persistSnapshot none .faultless else pure ()))
      onState (noteFailure snapshot)
      pure true) w fun _ w' => w.state.Maintains w'.state ∧ w'.reply = w.reply ∧
        w'.state.maintenanceFailure = w.state.maintenanceFailure := by
  have hsnapshot : Ensures (if due then persistSnapshot none .faultless else pure ()) w.state
      fun result s => result = .ok () ∧ w.state.Maintains s ∧
        s.maintenanceFailure = w.state.maintenanceFailure := by
    split
    · exact ht.ensures_persistSnapshot_faultless
    · exact .pure ⟨rfl, .refl _, rfl⟩
  refine (ensures_call (ensures_onState hsnapshot)).bind ?_ ?_
  · rintro e w₁ ⟨_, ⟨⟨rfl, -⟩, -⟩, hsettle⟩
    cases hsettle
  · rintro result w₁ ⟨_, ⟨⟨rfl, hmaintains, hfailure⟩, hreply⟩, hsettle⟩
    cases hsettle
    exact .pure ⟨hmaintains, hreply, hfailure⟩

omit [Sha256] in
theorem ensures_send_faultless (reply : Reply) (w : World) :
    Ensures (send reply .faultless) w fun r w' =>
      r = .ok () ∧ w' = { w with reply := some reply } := ⟨rfl, rfl⟩

/-- What follows a commit: its reply, and perhaps a snapshot. -/
theorem ensures_replied {result : Except StoreError CommitReceipt} (due : Prop) [Decidable due]
    {w : World} (ht : w.state.Tracks commands) :
    Ensures (do
      send (.commit result) .faultless
      let snapshot ← call (onState (if due then persistSnapshot none .faultless else pure ()))
      onState (noteFailure snapshot)
      pure true) w fun _ w' => w'.reply = some (.commit result) ∧ w.state.Maintains w'.state ∧
        w'.state.maintenanceFailure = w.state.maintenanceFailure := by
  refine (ensures_send_faultless (.commit result) w).bind ?_ ?_
  · rintro _ _ ⟨⟨⟩, -⟩
  · rintro _ w₁ ⟨-, rfl⟩
    refine (ensures_automaticSnapshot_faultless due
      (w := { w with reply := some (.commit result) }) ht).mono fun _ w' h => ?_
    exact ⟨h.2.1, h.1, h.2.2⟩

/-! ## a request -/

/-- Rows and memory are those of the commands, and no snapshot has failed. -/
structure World.Healthy (w : World) (commands : List Command) : Prop where
  tracks : w.state.Tracks commands
  unfailed : w.state.maintenanceFailure = none

/-- How a request is answered where nothing fails, and the state behind it. -/
inductive World.Answers (w : World) (requestId : RequestId) (command : Command)
    (commands : List Command) : Except StoreError CommitReceipt → World → Prop where
  | granted {next : Project} {w' : World} (hreduce : reduce w.state.project command = .ok next)
      (hhealthy : w'.Healthy (commands ++ [command]))
      (hreceipts : w'.state.connection.receipts =
        w.state.connection.receipts.insert requestId.bytes.toList (w.state.receiptRow command)) :
      w.Answers requestId command commands (.ok (w.state.receipt requestId command)) w'
  | refused {error : ModelError} {w' : World}
      (hreduce : reduce w.state.project command = .error error) :
      w.Answers requestId command commands (.error (.model error)) w'

variable {w : World}

theorem World.Healthy.ensures_handle_faultless (h : w.Healthy commands)
    (hfits : commands.length + 1 < 2 ^ 63)
    (hfresh : requestId.bytes.toList ∉ w.state.connection.receipts) (command : Command) :
    Ensures (handle (.commit requestId command none) .faultless) w fun _ w' =>
      ∃ answer, w'.reply = some (.commit answer) ∧
        w.Answers requestId command commands answer w' := by
  refine Ensures.get_bind ?_
  rw [h.unfailed]
  have hcommit := h.tracks.ensures_commit_faultless hfits hfresh command
  refine (ensures_call (ensures_onState hcommit)).bind ?_ ?_
  · rintro stop w₁ ⟨_, ⟨hcommits, -⟩, hsettle⟩
    generalize w₁.state = s₁ at hcommits
    cases hcommits <;> cases hsettle
  · rintro result w₁ ⟨_, ⟨hcommits, -⟩, hsettle⟩
    refine Ensures.get_bind ?_
    generalize hs₁ : w₁.state = s₁ at hcommits
    cases hcommits with
    | appended happends =>
        cases hsettle
        have htracks := happends.tracks h.tracks
        rw [← hs₁] at htracks
        refine (ensures_replied _ htracks).mono fun _ w' hreplied => ?_
        obtain ⟨hreply, hmaintains, hfailure⟩ := hreplied
        have hunfailed : w₁.state.maintenanceFailure = none := by
          rw [hs₁, happends.maintenanceFailure, h.unfailed]
        refine ⟨_, hreply, .granted happends.reduces ⟨hmaintains.tracks htracks, ?_⟩ ?_⟩
        · rw [hfailure, hunfailed]
        · rw [hmaintains.receipts, hs₁, happends.receipts_eq]
    | refused hreduce =>
        cases hsettle
        have htracks := h.tracks
        rw [← hs₁] at htracks
        exact (ensures_replied _ htracks).mono fun _ w' hreplied =>
          ⟨_, hreplied.1, .refused hreduce⟩

/-- **A request without faults** is granted exactly when its command
reduces. -/
theorem World.Healthy.requestCommit_faultless (h : w.Healthy commands)
    (hfits : commands.length + 1 < 2 ^ 63)
    (hfresh : requestId.bytes.toList ∉ w.state.connection.receipts) (command : Command) :
    ∃ answer w', requestCommit requestId command none .faultless w = (answer, w') ∧
      w.Answers requestId command commands answer w' := by
  have hquiet : World.Healthy { w with reply := none } commands := ⟨h.tracks, h.unfailed⟩
  obtain ⟨answer, hreply, hanswers⟩ := hquiet.ensures_handle_faultless hfits hfresh command
  unfold requestCommit
  generalize (handle (.commit requestId command none) .faultless { w with reply := none }).2 = w'
    at hreply hanswers
  obtain ⟨state, files, reply⟩ := w'
  cases hreply
  refine ⟨answer, _, rfl, ?_⟩
  cases hanswers with
  | granted hreduce hhealthy hreceipts => exact .granted hreduce hhealthy hreceipts
  | refused hreduce => exact .refused hreduce

end Client

end StitchEditor
