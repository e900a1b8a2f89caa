import Mathlib
import StitchEditor.Store.Messages

/-!
# StitchEditor.Store.Survival

The worker goes on: as long as the process lives, every message but the last
one is answered, whatever fails (`handle_responds`).
-/

namespace StitchEditor

open Fallible Procedure

/-! ## computations -/

/-- The process does not die at any call that leaves the program. -/
def Env.Alive (env : Env) : Prop := ∀ site, env.verdict site ≠ .crashes

/-- The computation does not end because the process died. -/
def Survives {α : Type} (x : Except Stop α) : Prop := Raises x (· ≠ .crash)

namespace Survives

variable {α β : Type} {env : Env}

theorem error (error : StoreError) : Survives (.error (.error error) : Except Stop α) :=
  Raises.error (by simp)

/-- A call that leaves the program may fail, but the process is alive after it.
-/
theorem execute (h : env.Alive) (site : Site) : Survives (execute env site) := by
  intro stop hstop
  have halive := h site
  cases hverdict : env.verdict site <;> simp_all [StitchEditor.execute]
  grind

theorem refuse {check : Prop} [Decidable check] (e : StoreError) : Survives (refuse check e) :=
  Raises.ite (error e) (Raises.ok ())

/-- A constraint of the schema fails as an error. -/
theorem constrained (rows : Option α) : Survives (constrained rows) := by
  cases rows with
  | none => exact error _
  | some rows => exact Raises.ok rows

/-- `map_err` turns an error into another one. -/
theorem mapErr {x : Except Stop α} (h : Survives x) (e : StoreError) : Survives (mapErr e x) := by
  cases x with
  | error stop =>
      cases stop with
      | error _ => exact error e
      | crash => exact absurd rfl (h .crash rfl)
  | ok a => exact Raises.ok a

/-- A hash of a wrong length is `CorruptStore`. -/
theorem hashFromBytes (bytes : List UInt8) : Survives (hashFromBytes bytes) := by
  unfold StitchEditor.hashFromBytes
  split
  · exact Raises.ok _
  · exact error _

end Survives

section Alive

variable {env : Env} (h : env.Alive)
include h

/-- The lookup of a receipt. -/
theorem survives_receipt (connection : Database) (requestId : RequestId) :
    Survives (receipt connection requestId env) := by
  refine (Survives.execute h _).bind fun _ _ => ?_
  split
  · exact Raises.ok none
  · exact (Survives.hashFromBytes _).bind fun _ _ => Raises.ok _

/-- A repeated request. -/
theorem survives_retry (connection : Database) (requestId : RequestId) (command : Command)
    (receipt : CommitReceipt) : Survives (retry connection requestId command receipt env) := by
  refine (Survives.execute h _).bind fun _ _ => ?_
  split
  · exact Survives.error _
  · exact (Survives.refuse _).bind fun _ _ => Raises.ok _

/-- The transaction of a commit, with its rollback. -/
theorem survives_transact (state : State) (receipt : CommitReceipt) (command : Command)
    (fault : Option FaultPoint) : Survives (transact state receipt command fault env) :=
  (Survives.execute h _).bind fun _ _ => (Survives.execute h _).bind fun _ _ =>
    (Survives.constrained _).bind fun _ _ => (Survives.execute h _).bind fun _ _ =>
      (Survives.constrained _).bind fun _ _ => (Survives.execute h _).bind fun _ _ =>
        (Survives.constrained _).bind fun _ _ => (Survives.refuse _).bind fun _ _ =>
          (Survives.execute h _).bind fun _ _ => Raises.ok _

/-- The checkpoint of the log. -/
theorem survives_checkpoint (fault : Option FaultPoint) : Survives (checkpoint fault env) :=
  (Survives.refuse _).bind fun _ _ => (Survives.refuse _).bind fun _ _ =>
    ((Survives.execute h _).mapErr _).bind fun _ _ => (Survives.refuse _).bind fun _ _ =>
      (Survives.refuse _).bind fun _ _ => Raises.ok _

theorem survives_deleteSnapshots : Survives (deleteSnapshots env) :=
  (Survives.execute h _).bind fun _ _ => (Survives.execute h _).bind fun _ _ => Survives.execute h _

section Hashing

variable [Sha256]

/-- The transaction of a snapshot. -/
theorem survives_stageSnapshot (state : State) (head : RevisionHash) :
    Survives (stageSnapshot state head env) :=
  (Survives.execute h _).bind fun _ _ => (Survives.execute h _).bind fun _ _ =>
    (Survives.constrained _).bind fun _ _ => (Survives.execute h _).bind fun _ _ => Raises.ok _

/-- The check of the latest snapshot. -/
theorem survives_checkSnapshot (db : Database) : Survives (checkSnapshot db env) := by
  unfold checkSnapshot
  split
  · exact Raises.ok ()
  · split
    · exact Survives.error _
    · exact Raises.ite (Survives.error _) (Raises.ite (Survives.error _)
        ((Survives.execute h _).bind fun _ _ => Raises.ite (Raises.ok ()) (Survives.error _)))

omit h in
theorem survives_matchSnapshot (snapshot : Option (SnapshotKey × SnapshotRow))
    (replayed : Replayed) : Survives (matchSnapshot snapshot replayed) := by
  unfold matchSnapshot
  split
  · exact Raises.ok replayed
  · exact Raises.ite ((Survives.hashFromBytes _).bind fun _ _ =>
      Raises.ite (Survives.error _) (Raises.ok _)) (Raises.ok replayed)

/-- One revision that is replayed. -/
theorem survives_replayRow (snapshot : Option (SnapshotKey × SnapshotRow)) (replayed : Replayed)
    (entry : Int × RevisionRow) : Survives (replayRow snapshot replayed entry env) := by
  refine (Survives.execute h _).bind fun _ _ => Raises.ite (Survives.error _) ?_
  split
  · exact Survives.error _
  · next command _ =>
    refine Raises.bind ?_ fun _ _ => Raises.ite (Survives.error _) ?_
    · cases entry.2.parentHash with
      | none => exact Raises.ok none
      | some parent => exact (Survives.hashFromBytes parent).bind fun _ _ => Raises.ok _
    · refine (Survives.hashFromBytes _).bind fun _ _ => Raises.ite (Survives.error _) ?_
      split
      · exact Survives.error _
      · exact survives_matchSnapshot snapshot _

omit [Sha256] in
/-- The check of the receipts. -/
theorem survives_validateReceipts (db : Database) : Survives (validateReceipts db env) :=
  (Survives.execute h _).bind fun _ _ => (Survives.execute h _).bind fun _ _ =>
    (Survives.execute h _).bind fun _ _ => Raises.ite (Survives.error _) (Raises.ok ())

omit h [Sha256] in
/-- The check of the head, which asks nothing of SQLite. -/
theorem survives_checkHead (heads : Option HeadRow) (replayed : Replayed) :
    Survives (checkHead heads replayed) := by
  unfold checkHead
  split
  · exact Raises.ite (Raises.ok _) (Survives.error _)
  · exact Raises.ite ((Survives.hashFromBytes _).bind fun _ _ =>
      Raises.ite (Raises.ok _) (Survives.error _)) (Survives.error _)

/-- **Replaying the rows** ends in a project or in an error. -/
theorem survives_restore (db : Database) : Survives (restore db env) :=
  (Survives.execute h _).bind fun _ _ => (Survives.execute h _).bind fun _ _ =>
    (survives_checkSnapshot h db).bind fun _ _ => (Survives.execute h _).bind fun _ _ =>
      (Raises.foldlM (survives_replayRow h _) _ _).bind fun replayed _ =>
        Raises.ite (Survives.error _) ((survives_validateReceipts h db).bind fun _ _ =>
          survives_checkHead db.heads replayed)

end Hashing

end Alive

/-! ## procedures -/

/-- The procedure does not end because the process died. -/
def Outlives {σ α : Type} (x : Proc Stop σ α) : Prop := ∀ s, Survives (x s).1

namespace Outlives

variable {σ τ α β : Type} {x : Proc Stop σ α} {f : α → Proc Stop σ β}

theorem lift {r : Except Stop α} (h : Survives r) : Outlives (liftM r : Proc Stop σ α) := fun _ => h

theorem pure (a : α) : Outlives (Pure.pure a : Proc Stop σ α) := fun _ => Raises.ok a

theorem get : Outlives (MonadState.get : Proc Stop σ σ) := fun s => Raises.ok s

theorem set (s : σ) : Outlives (MonadStateOf.set s : Proc Stop σ Unit) := fun _ => Raises.ok ()

theorem modify (g : σ → σ) : Outlives (modify g : Proc Stop σ Unit) := fun _ => Raises.ok ()

/-- One procedure after another. -/
theorem bind (hx : Outlives x) (hf : ∀ a, Outlives (f a)) : Outlives (x >>= f) := by
  intro s
  have hfirst := hx s
  rcases hxs : x s with ⟨result, t⟩
  rw [hxs] at hfirst
  cases result with
  | error stop =>
      rw [bind_of_error hxs]
      exact Raises.error (hfirst stop rfl)
  | ok a =>
      rw [bind_of_ok hxs]
      exact hf a t

/-- A procedure on a part of the state. -/
theorem zoom (h : Outlives x) (view : τ → σ) (update : τ → σ → τ) :
    Outlives (x.zoom view update) := fun t => h (view t)

end Outlives

section Alive

variable {env : Env} (h : env.Alive)
include h

omit h in
theorem outlives_archiveTemporaryPath (destination : Path) :
    Outlives (archiveTemporaryPath destination env) := by
  unfold archiveTemporaryPath
  split
  · exact .bind .get fun _ => .bind (.set _) fun _ =>
      .bind (.lift (Survives.refuse _)) fun _ => .pure _
  · exact .lift (Survives.error _)

/-- The backup of the rows, which is left where it fails. -/
theorem outlives_backup (rows : Database) (temporary : Path) :
    Outlives (backup rows temporary env) := by
  intro files
  have hexecute := Survives.execute h .backup
  unfold backup
  split
  · exact Raises.ok ()
  · next stop hstop =>
    rw [hstop] at hexecute
    exact hexecute.mapErr _

section Hashing

variable [Sha256]

/-- **A commit** ends in a receipt or in an error. -/
theorem outlives_commit (requestId : RequestId) (command : Command) (fault : Option FaultPoint) :
    Outlives (commit requestId command fault env) := by
  refine .bind .get fun state => .bind (.lift (survives_receipt h _ _)) fun found => ?_
  cases found with
  | some receipt => exact .lift (survives_retry h _ _ _ _)
  | none =>
      refine .bind (.lift ?_) fun next => .bind (.lift ?_) fun sequence => ?_
      · unfold reduceModel
        split
        · exact Raises.ok _
        · exact Survives.error _
      · exact Raises.ite (Raises.ok _) (Survives.error _)
      · exact .bind (.lift (survives_transact h _ _ _ _)) fun _ => .bind (.set _) fun _ =>
          .bind (.lift (Survives.refuse _)) fun _ => .pure _

/-- **A snapshot.** -/
theorem outlives_persistSnapshot (fault : Option FaultPoint) :
    Outlives (persistSnapshot fault env) := by
  refine .bind .get fun state => ?_
  split
  · exact .pure ()
  · refine .bind (.lift (Survives.refuse _)) fun _ => ?_
    split
    · exact .lift (Survives.error _)
    · refine .bind (.lift ((Survives.execute h _).mapErr _)) fun _ => ?_
      split
      · exact .pure ()
      · exact .bind (.lift (Survives.refuse _)) fun _ =>
          .bind (.lift ((survives_stageSnapshot h _ _).mapErr _)) fun _ =>
            .bind (.set _) fun _ => .lift (Survives.refuse _)

/-- **A compaction**, with its snapshot. -/
theorem outlives_compact (fault : Option FaultPoint) : Outlives (compact fault env) :=
  .bind (.lift (Survives.refuse _)) fun _ => .bind (outlives_persistSnapshot h none) fun _ =>
    .bind (.lift ((survives_deleteSnapshots h).mapErr _)) fun _ => .bind (.modify _) fun _ =>
      .bind (.lift (Survives.refuse _)) fun _ => .bind (.lift (survives_checkpoint h none)) fun _ =>
        .bind (.lift ((Survives.execute h _).mapErr _)) fun _ => .lift (Survives.refuse _)

/-- The check of an archive that was written. -/
theorem survives_validateArchive (path : Path) (state : State) (files : Files) :
    Survives (validateArchive path state files env) := by
  refine (Survives.execute h _).bind fun _ _ => (Survives.execute h _).bind fun _ _ =>
    (Survives.execute h _).bind fun _ _ => (Survives.execute h _).bind fun _ _ => ?_
  split
  · exact (survives_restore h _).bind fun _ _ => Survives.refuse _
  · exact Survives.error _

omit [Sha256] in
theorem survives_syncArchiveParent (destination : Path) :
    Survives (syncArchiveParent destination env) := by
  unfold syncArchiveParent
  split
  · exact Survives.error _
  · next parent _ =>
    have hopen : Survives (openDirectory parent env) := (Survives.execute h _).bind fun _ _ =>
      Survives.refuse _
    exact Raises.ite ((hopen.mapErr _).bind fun _ _ => (Survives.execute h _).mapErr _)
      (Raises.ok ())

/-- **An archive**, with the removal of its temporary file. -/
theorem outlives_archive (state : State) (destination : Path) (fault : Option FaultPoint) :
    Outlives (archive state destination fault env) :=
  .bind .get fun _ => .bind (.lift (Survives.refuse _)) fun _ =>
    .bind (.lift (Survives.refuse _)) fun _ =>
      .bind (outlives_archiveTemporaryPath destination) fun _ =>
        .bind (outlives_backup h _ _) fun _ => .bind (.lift (Survives.refuse _)) fun _ =>
          .bind .get fun _ => .bind (.lift ((survives_validateArchive h _ _ _).mapErr _)) fun _ =>
            .bind (.lift ((Survives.execute h _).mapErr _)) fun _ =>
              .bind (.lift (Survives.refuse _)) fun _ =>
                .bind (.lift ((Survives.execute h _).mapErr _)) fun _ =>
                  .bind (.modify _) fun _ => .lift (survives_syncArchiveParent h destination)

end Hashing

end Alive

/-! ## the worker -/

/-- The worker responds, and its loop goes on. -/
def Responds (x : Proc Stop World Bool) : Prop :=
  ∀ w, ∃ reply w', x w = (.ok true, w') ∧ w'.reply = some reply

section Responds

variable {env : Env} {α : Type}

/-- What the worker has of an operation is its result. -/
theorem settle_of_survives {x : Except Stop α} (h : Survives x) : ∃ r, settle x = .ok r := by
  cases x with
  | error stop =>
      cases stop with
      | error e => exact ⟨_, rfl⟩
      | crash => exact absurd rfl (h .crash rfl)
  | ok a => exact ⟨_, rfl⟩

/-- The operation, and what follows its result. -/
theorem call_of_outlives {x : Proc Stop World α} (h : Outlives x) (w : World) :
    ∃ r w', call x w = (.ok r, w') := by
  obtain ⟨r, hr⟩ := settle_of_survives (h w)
  exact ⟨r, _, by rw [call, hr]⟩

theorem responds_call {x : Proc Stop World α} {next : Except StoreError α → Proc Stop World Bool}
    (h : Outlives x) (hnext : ∀ r, Responds (next r)) : Responds (call x >>= next) := by
  intro w
  obtain ⟨r, w', hcall⟩ := call_of_outlives h w
  rw [bind_of_ok hcall]
  exact hnext r w'

theorem responds_get {f : World → Proc Stop World Bool} (h : ∀ w, Responds (f w)) :
    Responds (get >>= f) := fun w => h w w

/-- The response is the last thing that is done. -/
theorem responds_send (h : env.verdict .respond = .completes) (reply : Reply) :
    Responds (do send reply env; pure true) := by
  intro w
  have hsend : send reply env w = (.ok (), { w with reply := some reply }) := by
    simp only [send, h]
  exact ⟨reply, _, bind_of_ok hsend, rfl⟩

/-- An operation on the state leaves the response alone. -/
theorem call_onState {x : Proc Stop State α} (h : Outlives x) (w : World) :
    ∃ r s, call (onState x) w = (.ok r, { w with state := s }) := by
  obtain ⟨r, hr⟩ := settle_of_survives (h w.state)
  exact ⟨r, (x w.state).2, Prod.ext hr rfl⟩

/-- A failure is noted in the state. -/
theorem onState_noteFailure (result : Except StoreError Unit) (w : World) :
    ∃ s, onState (noteFailure result) w = (.ok (), { w with state := s }) := by
  unfold noteFailure
  split <;> exact ⟨_, rfl⟩

/-- What follows the response to a commit leaves the response alone. -/
theorem responds_commit {x : Proc Stop State Unit} (h : env.verdict .respond = .completes)
    (hx : Outlives x) (reply : Reply) :
    Responds (do
      send reply env
      let snapshot ← call (onState x)
      onState (noteFailure snapshot)
      pure true) := by
  intro w
  have hsend : send reply env w = (.ok (), { w with reply := some reply }) := by
    simp only [send, h]
  obtain ⟨result, s, hcall⟩ := call_onState hx { w with reply := some reply }
  obtain ⟨s', hnote⟩ := onState_noteFailure result ⟨s, w.files, some reply⟩
  refine ⟨reply, ⟨s', w.files, some reply⟩, ?_, rfl⟩
  rw [bind_of_ok hsend, bind_of_ok hcall, bind_of_ok hnote]
  rfl

/-- A failure is noted before the response. -/
theorem responds_noted (h : env.verdict .respond = .completes) (result : Except StoreError Unit)
    (reply : Reply) :
    Responds (do
      onState (noteFailure result)
      send reply env
      pure true) := by
  intro w
  obtain ⟨s, hnote⟩ := onState_noteFailure result w
  rw [bind_of_ok hnote]
  exact responds_send h reply _

/-- What is refused after a failed snapshot fails as an error. -/
theorem outlives_unlessFailed {x : Proc Stop State α} (h : Outlives x) :
    Outlives (unlessFailed x) := by
  refine .bind .get fun state => ?_
  split
  · exact .lift (Survives.error _)
  · exact h

end Responds

/-- **The worker responds** to every message but the last one. -/
theorem handle_responds [Sha256] {env : Env} (halive : env.Alive)
    (h : env.verdict .respond = .completes) {work : Work} (hwork : work ≠ .shutdown) :
    Responds (handle work env) := by
  cases work with
  | commit requestId command fault =>
      refine responds_get fun w => ?_
      split
      · exact responds_send h _
      · refine responds_call ((outlives_commit halive requestId command fault).zoom _ _)
          fun result => responds_get fun w => responds_commit h ?_ _
        split
        · exact outlives_persistSnapshot halive none
        · exact .pure ()
  | receipt requestId =>
      exact responds_get fun w =>
        responds_call (.lift (survives_receipt halive _ _)) fun r => responds_send h _
  | snapshot fault =>
      exact responds_call ((outlives_unlessFailed (outlives_persistSnapshot halive fault)).zoom _ _)
        fun r => responds_noted h r _
  | checkpoint fault =>
      exact responds_call
        ((outlives_unlessFailed (.lift (survives_checkpoint halive fault))).zoom _ _)
        fun r => responds_send h _
  | compact fault =>
      exact responds_call ((outlives_unlessFailed (outlives_compact halive fault)).zoom _ _)
        fun r => responds_send h _
  | archive destination fault =>
      refine responds_get fun w => ?_
      split
      · exact responds_send h _
      · exact responds_call ((outlives_archive halive _ destination fault).zoom _ _)
          fun result => responds_send h _
  | shutdown => exact absurd rfl hwork

end StitchEditor
