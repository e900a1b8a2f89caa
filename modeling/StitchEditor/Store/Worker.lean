import Mathlib
import StitchEditor.Lib.Procedure
import StitchEditor.Store.Accepts

/-!
# StitchEditor.Store.Worker

The operations of the store's worker over its connection and its memory.

A statement works on the rows it is given, and the connection changes only
where a transaction commits; a transaction that is dropped leaves no trace.
So does a crash: what a procedure has written to `connection` when it stops
is what the next process finds.
-/

namespace StitchEditor

open Chain Fallible Procedure Std

/-! ## data -/

/-- The components of a path, so that equality is that of paths.  A leading
`.` and every `..` are components of their own. -/
structure Path where
  absolute : Bool
  components : List String
  deriving DecidableEq

structure CommitReceipt where
  requestId : RequestId
  revisionHash : RevisionHash
  sequence : Int
  deriving DecidableEq

structure CheckpointReceipt where
  logFrames : Int
  checkpointedFrames : Int
  deriving DecidableEq

structure State where
  connection : Database
  project : Project
  head : Option RevisionHash
  sequence : Int
  databasePath : Path
  maintenanceFailure : Option MaintenanceError
  deriving DecidableEq

def snapshotInterval : Int := 128

/-! ## commits -/

section Worker

variable [Sha256]

def receipt (connection : Database) (requestId : RequestId) (env : Env) :
    Except Stop (Option CommitReceipt) := do
  execute env .selectReceipt
  match connection.receipts[requestId.bytes.toList]? with
  | none => pure none
  | some row => do
      pure (some ⟨requestId, ← hashFromBytes row.revisionHash, row.sequence⟩)

/-- `commit` for a request that has a receipt. -/
def retry (connection : Database) (requestId : RequestId) (command : Command)
    (receipt : CommitReceipt) (env : Env) : Except Stop CommitReceipt := do
  execute env .selectReceiptCommand
  match connection.receipts[requestId.bytes.toList]? with
  | none => raise (.sql .queryReturnedNoRows)
  | some row => do
      refuse (row.command ≠ command.canonicalBytes) (.requestConflict requestId)
      pure receipt

/-- `reduce(..)?` -/
def reduceModel (project : Project) (command : Command) : Except Stop Project :=
  match reduce project command with
  | .ok project => .ok project
  | .error error => .error (.error (.model error))

/-- `checked_add(1)`. -/
def nextSequence (sequence : Int) : Except Stop Int :=
  if sequence + 1 < 2 ^ 63 then .ok (sequence + 1) else corrupt

/-- The rows of the transaction of `commit`. -/
def transact (state : State) (receipt : CommitReceipt) (command : Command)
    (fault : Option FaultPoint) (env : Env) : Except Stop Database := do
  let hash := receipt.revisionHash.bytes.toList
  execute env .beginCommit
  execute env .insertRevision
  let rows ← constrained (state.connection.insertRevision receipt.sequence
    ⟨hash, state.head.map fun value => value.bytes.toList, command.canonicalBytes⟩)
  execute env .insertReceipt
  let rows ← constrained (rows.insertReceipt receipt.requestId.bytes.toList
    ⟨hash, receipt.sequence, command.canonicalBytes⟩)
  execute env .upsertHead
  let rows ← constrained (rows.upsertHead ⟨receipt.sequence, hash⟩)
  refuse (fault = some .beforeCommit) (.injected .beforeCommit)
  execute env .commitCommit
  pure rows

def commit (requestId : RequestId) (command : Command) (fault : Option FaultPoint) (env : Env) :
    Proc Stop State CommitReceipt := do
  let state ← get
  match ← receipt state.connection requestId env with
  | some receipt => retry state.connection requestId command receipt env
  | none => do
      let next ← reduceModel state.project command
      let hash := revisionHash state.head command
      let sequence ← nextSequence state.sequence
      let receipt : CommitReceipt := ⟨requestId, hash, sequence⟩
      let rows ← transact state receipt command fault env
      set { state with
        connection := rows, project := next, head := some hash, sequence := sequence }
      refuse (fault = some .afterCommitBeforeResponse) (.ambiguous requestId)
      pure receipt

/-! ## maintenance -/

/-- The rows of the transaction of `persist_snapshot`. -/
def stageSnapshot (state : State) (head : RevisionHash) (env : Env) : Except Stop Database := do
  execute env .beginSnapshot
  execute env .insertSnapshot
  let rows ← constrained (state.connection.insertOrIgnoreSnapshot
    ⟨state.sequence, head.bytes.toList⟩
    ⟨state.project.canonicalBytes, state.project.semanticDigest.bytes.toList⟩)
  execute env .commitSnapshot
  pure rows

def persistSnapshot (fault : Option FaultPoint) (env : Env) : Proc Stop State Unit := do
  let state ← get
  if state.sequence = 0 then pure ()
  else do
    maintenanceFault fault .beforeSnapshot
    match state.head with
    | none => corrupt
    | some head => do
        mapErr (.maintenance .snapshot) (execute env .selectSnapshotExists)
        if ⟨state.sequence, head.bytes.toList⟩ ∈ state.connection.snapshots then pure ()
        else do
          maintenanceFault fault .duringSnapshot
          let rows ← mapErr (.maintenance .snapshot) (stageSnapshot state head env)
          set { state with connection := rows }
          maintenanceFault fault .afterSnapshot

def checkpoint (fault : Option FaultPoint) (env : Env) : Except Stop CheckpointReceipt := do
  maintenanceFault fault .beforeCheckpoint
  maintenanceFault fault .duringCheckpoint
  mapErr (.maintenance .checkpoint) (execute env .walCheckpoint)
  let (busy, logFrames, checkpointedFrames) := env.walCheckpoint
  refuse (busy ≠ 0 ∨ logFrames ≠ checkpointedFrames) (.maintenance .checkpoint)
  maintenanceFault fault .afterCheckpoint
  pure ⟨logFrames, checkpointedFrames⟩

/-- The transaction of `compact`. -/
def deleteSnapshots (env : Env) : Except Stop Unit := do
  execute env .beginCompaction
  execute env .deleteSnapshots
  execute env .commitCompaction

def compact (fault : Option FaultPoint) (env : Env) : Proc Stop State Unit := do
  maintenanceFault fault .beforeCompaction
  persistSnapshot none env
  mapErr (.maintenance .compaction) (deleteSnapshots env)
  modify fun state => { state with connection := state.connection.deleteOldSnapshots }
  maintenanceFault fault .duringCompaction
  let _ ← checkpoint none env
  -- `VACUUM` rewrites the file and keeps the rows
  mapErr (.maintenance .compaction) (execute env .vacuum)
  maintenanceFault fault .afterCompaction

/-! ## opening -/

/-- `open_state` on an initialised file. -/
def openState (path : Path) (rows : Database) (env : Env) : Except Stop State := do
  execute env .openDatabase
  execute env .verifyRuntime
  execute env .configure
  execute env .validateSchema
  execute env .quickCheck
  let (project, head, sequence) ← restore rows env
  pure ⟨rows, project, head, sequence, path, none⟩

end Worker

end StitchEditor
