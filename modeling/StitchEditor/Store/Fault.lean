import Mathlib
import StitchEditor.Lib.Fallible
import StitchEditor.Contracts.Project

/-!
# StitchEditor.Store.Fault

What can go wrong while the store works: the errors it reports, the faults
its tests inject, and the environment it runs in.

Every call that leaves the program (an SQL statement, a backup, a file
operation, the sending of a reply) is a `Site`.  An `Env` says for each
site whether the call completes, fails, or whether the process dies right
before it.  A message passes a site at most once, so an environment per
message covers every combination of failures and every crash point.
-/

namespace StitchEditor

open Fallible

/-! ## errors -/

inductive FaultPoint where
  | beforeCommit
  | afterCommitBeforeResponse
  | beforeSnapshot
  | duringSnapshot
  | afterSnapshot
  | beforeCheckpoint
  | duringCheckpoint
  | afterCheckpoint
  | beforeCompaction
  | duringCompaction
  | afterCompaction
  | beforeArchive
  | duringArchive
  | afterArchive
  deriving DecidableEq

inductive MaintenanceError where
  | snapshot
  | checkpoint
  | compaction
  | archive
  | fault (point : FaultPoint)
  deriving DecidableEq

/-- The part of `rusqlite::Error` that the store can tell apart: the
statement failed, it broke a constraint, or a row was expected. -/
inductive SqlError where
  | failed
  | constraint
  | queryReturnedNoRows
  deriving DecidableEq

inductive StoreError where
  | sql (error : SqlError)
  | model (error : ModelError)
  | ambiguous (requestId : RequestId)
  | requestConflict (requestId : RequestId)
  | injected (point : FaultPoint)
  | maintenance (error : MaintenanceError)
  | runtimeMismatch
  | corruptStore
  | workerStopped
  deriving DecidableEq

/-- A computation stops with an error of the store, or because the process
died. -/
inductive Stop where
  | error (error : StoreError)
  | crash
  deriving DecidableEq

/-! ## the environment -/

/-- The calls that leave the program, by the function they stand in. -/
inductive Site where
  -- `open_state`
  | openDatabase
  | verifyRuntime
  | configure
  | validateSchema
  | quickCheck
  -- `restore` and `validate_receipts`
  | selectHead
  | selectSnapshot
  | selectSnapshotRevision
  | prepareRevisions
  | nextRevision (sequence : Int)
  | countReceipts
  | countRevisions
  | selectMismatch
  -- `receipt` and `commit`
  | selectReceipt
  | selectReceiptCommand
  | beginCommit
  | insertRevision
  | insertReceipt
  | upsertHead
  | commitCommit
  -- `persist_snapshot`
  | selectSnapshotExists
  | beginSnapshot
  | insertSnapshot
  | commitSnapshot
  -- `checkpoint` and `compact`
  | walCheckpoint
  | beginCompaction
  | deleteSnapshots
  | commitCompaction
  | vacuum
  -- `archive`
  | backup
  | syncArchive
  | renameArchive
  | openParent
  | syncParent
  -- `worker_main`
  | respond
  deriving DecidableEq

inductive Verdict where
  | completes
  | fails
  | crashes
  deriving DecidableEq

/-- What happens at each site, what `PRAGMA wal_checkpoint(TRUNCATE)`
returns (busy, log frames, checkpointed frames), whether a failed backup
leaves a file behind, and the system the program runs on. -/
structure Env where
  verdict : Site → Verdict
  walCheckpoint : Int × Int × Int
  partialBackup : Bool
  unix : Bool
  processId : Nat

/-- Every call completes and the checkpoint is not busy. -/
def Env.faultless : Env where
  verdict _ := .completes
  walCheckpoint := (0, 0, 0)
  partialBackup := false
  unix := true
  processId := 0

/-- A call that leaves the program. -/
def execute (env : Env) (site : Site) : Except Stop Unit :=
  match env.verdict site with
  | .completes => .ok ()
  | .fails => .error (.error (.sql .failed))
  | .crashes => .error .crash

@[simp] theorem execute_faultless (site : Site) : execute .faultless site = .ok () := rfl

/-- `Err(error)`. -/
def raise {α : Type} (error : StoreError) : Except Stop α := .error (.error error)

/-- `Err(StoreError::CorruptStore)`. -/
def corrupt {α : Type} : Except Stop α := .error (.error .corruptStore)

/-- `map_err(|_| error)`, which does not survive the process. -/
def mapErr {α : Type} (error : StoreError) : Except Stop α → Except Stop α
  | .error (.error _) => .error (.error error)
  | result => result

/-- The result of a statement that may break a constraint. -/
def constrained {α : Type} : Option α → Except Stop α
  | some a => .ok a
  | none => .error (.error (.sql .constraint))

/-- An error that a check raises. -/
def refuse (check : Prop) [Decidable check] (error : StoreError) : Except Stop Unit :=
  if check then .error (.error error) else .ok ()

def maintenanceFault (fault : Option FaultPoint) (point : FaultPoint) : Except Stop Unit :=
  refuse (fault = some point) (.maintenance (.fault point))

/-! ## interruptions -/

/-- Whatever the environment does, the computation gives the result it gives
when nothing fails, or it is cut short. -/
def Interruptible {α : Type} (f : Env → Except Stop α) : Prop :=
  ∀ env, f env = f .faultless ∨ f env = .error (.error (.sql .failed)) ∨ f env = .error .crash

namespace Interruptible

variable {α β : Type} {f : Env → Except Stop α}

theorem const (r : Except Stop α) : Interruptible fun _ => r := fun _ => .inl rfl

theorem execute (site : Site) : Interruptible fun env => execute env site := by
  intro env
  simp only [StitchEditor.execute, Env.faultless]
  cases env.verdict site with
  | completes => exact .inl rfl
  | fails => exact .inr (.inl rfl)
  | crashes => exact .inr (.inr rfl)

theorem bind (hf : Interruptible f) {g : α → Env → Except Stop β} (hg : ∀ a, Interruptible (g a)) :
    Interruptible fun env => f env >>= fun a => g a env := by
  intro env
  dsimp only
  rcases hf env with h | h | h
  · rw [h]
    cases f .faultless with
    | error e => exact .inl rfl
    | ok a => exact hg a env
  · rw [h]; exact .inr (.inl rfl)
  · rw [h]; exact .inr (.inr rfl)

theorem foldlM {γ : Type} {g : γ → α → Env → Except Stop γ} (hg : ∀ c a, Interruptible (g c a))
    (l : List α) (init : γ) :
    Interruptible fun env => l.foldlM (fun c a => g c a env) init := by
  induction l generalizing init with
  | nil => exact const _
  | cons a l ih =>
      simp only [List.foldlM_cons]
      exact (hg init a).bind ih

/-- A success does not depend on the environment. -/
theorem eq_ok (hf : Interruptible f) {env : Env} {a : α} (h : f env = .ok a) :
    f .faultless = .ok a := by
  rcases hf env with h' | h' | h'
  · rw [← h', h]
  · rw [h] at h'; cases h'
  · rw [h] at h'; cases h'

/-- When the computation would succeed, only an interruption makes it
fail. -/
theorem error_cases (hf : Interruptible f) {a : α} (h : f .faultless = .ok a) (env : Env) :
    f env = .ok a ∨ f env = .error (.error (.sql .failed)) ∨ f env = .error .crash := by
  rw [← h]
  exact hf env

end Interruptible

/-! ## sites on the way -/

/-- The computation succeeds in an environment exactly when it succeeds at
all and its sites complete there. -/
def Visits {α : Type} (f : Env → Except Stop α) (sites : List Site) : Prop :=
  ∀ env a, f env = .ok a ↔ f .faultless = .ok a ∧ ∀ site ∈ sites, env.verdict site = .completes

theorem execute_eq_ok_iff {env : Env} {site : Site} {u : Unit} :
    execute env site = .ok u ↔ env.verdict site = .completes := by
  unfold execute
  cases env.verdict site <;> simp

namespace Visits

variable {α β : Type} {f : Env → Except Stop α} {sites : List Site}

theorem const (r : Except Stop α) : Visits (fun _ => r) [] := by simp [Visits]

/-- What fails anyway may be said to visit any sites. -/
theorem error (stop : Stop) (sites : List Site) :
    Visits (fun _ => (.error stop : Except Stop α)) sites := by
  simp [Visits]

theorem execute (site : Site) : Visits (fun env => execute env site) [site] := by
  intro env a
  simp [execute_eq_ok_iff]

theorem bind (hf : Visits f sites) {g : α → Env → Except Stop β} {more : List Site}
    (hg : ∀ a, Visits (g a) more) :
    Visits (fun env => f env >>= fun a => g a env) (sites ++ more) := by
  intro env b
  simp only [bind_eq_ok_iff, hf env, hg _ env, List.forall_mem_append]
  constructor
  · rintro ⟨a, ⟨hf, hsites⟩, hg, hmore⟩
    exact ⟨⟨a, hf, hg⟩, hsites, hmore⟩
  · rintro ⟨⟨a, hf, hg⟩, hsites, hmore⟩
    exact ⟨a, ⟨hf, hsites⟩, hg, hmore⟩

theorem foldlM {γ : Type} {g : γ → α → Env → Except Stop γ} {sites : α → List Site}
    (hg : ∀ c a, Visits (g c a) (sites a)) (l : List α) (start : γ) :
    Visits (fun env => l.foldlM (fun c a => g c a env) start) (l.flatMap sites) := by
  induction l generalizing start with
  | nil => exact const _
  | cons a l ih =>
      simp only [List.foldlM_cons, List.flatMap_cons]
      exact (hg start a).bind ih

end Visits

end StitchEditor
