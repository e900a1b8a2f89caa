import Mathlib
import StitchEditor.Store.Worker

/-!
# StitchEditor.Store.Archive

`archive`: a backup of the rows into a temporary file beside the
destination, validated with `restore` and renamed into place.

Files are known by their paths, and of a file the store can tell only which
rows SQLite reads of a database.  These are not those of its main file alone:
SQLite replays a rollback journal and a write-ahead log that it finds beside
the database, whatever database they were written for.
-/

namespace StitchEditor

open Procedure

/-! ## paths -/

namespace Path

/-- The path of no text at all. -/
def empty : Path := ⟨false, []⟩

def parent (path : Path) : Option Path :=
  if path.components = [] then none else some { path with components := path.components.dropLast }

def fileName (path : Path) : Option String :=
  match path.components.getLast? with
  | none => none
  | some name => if name = "." ∨ name = ".." then none else some name

def join (path : Path) (name : String) : Path :=
  { path with components := path.components ++ [name] }

end Path

/-- Text put behind the text of the path, which does not end in a slash. -/
def withSuffix (path : Path) (suffix : String) : Path :=
  match path.components.getLast? with
  | none => { path with components := [suffix] }
  | some name => { path with components := path.components.dropLast ++ [name ++ suffix] }

/-! ## files -/

inductive File where
  /-- The main file of a database. -/
  | database (rows : Database)
  /-- A log, with what replaying it makes of the rows of a database; `none`
  where SQLite reads no database then. -/
  | log (replay : Database → Option Database)
  | other

/-- The rows of a database when SQLite has looked at the path of a log; a file
that is no log is ignored. -/
def File.replay (rows : Database) : Option File → Option Database
  | some (.log replay) => replay rows
  | _ => some rows

/-- Where SQLite looks for a rollback journal and for a write-ahead log, in
this order. -/
def logSuffixes : List String := ["-journal", "-wal"]

/-- What stands at each path, and `ARCHIVE_TEMPORARY_COUNTER`. -/
structure Files where
  entries : Path → Option File
  temporaries : UInt64

namespace Files

/-- What SQLite reads at the path where the main file holds the rows. -/
def replayed (files : Files) (path : Path) (rows : Database) : Option Database :=
  logSuffixes.foldlM (fun rows suffix => File.replay rows (files.entries (withSuffix path suffix)))
    rows

/-- The rows of the database at the path. -/
def database (files : Files) (path : Path) : Option Database :=
  match files.entries path with
  | some (.database rows) => files.replayed path rows
  | _ => none

def put (files : Files) (path : Path) (file : Option File) : Files :=
  { files with entries := Function.update files.entries path file }

/-- A new database: SQLite deletes logs that it finds beside an empty one. -/
def create (files : Files) (path : Path) (rows : Database) : Files :=
  (logSuffixes.foldl (fun files suffix => files.put (withSuffix path suffix) none) files).put path
    (some (.database rows))

def rename (files : Files) (source target : Path) : Files :=
  (files.put target (files.entries source)).put source none

end Files

/-! ## the archive -/

def archiveTemporaryPath (destination : Path) (env : Env) : Proc Stop Files Path := do
  match destination.parent, destination.fileName with
  | some parent, some name => do
      let files ← get
      set { files with temporaries := files.temporaries + 1 }
      let temporary := parent.join
        (name ++ ".tmp-" ++ toString env.processId ++ "-" ++ toString files.temporaries)
      refuse (files.entries temporary).isSome (.maintenance .archive)
      pure temporary
  | _, _ => raise (.maintenance .archive)

/-- `connection.backup`: where it fails or the process dies, part of a file
may be left behind. -/
def backup (rows : Database) (temporary : Path) (env : Env) : Proc Stop Files Unit := fun files =>
  match execute env .backup with
  | .ok () => (.ok (), files.create temporary rows)
  | .error stop =>
      (mapErr (.maintenance .archive) (.error stop),
        if env.partialBackup then files.put temporary (some .other) else files)

section Archive

variable [Sha256]

def validateArchive (path : Path) (state : State) (files : Files) (env : Env) :
    Except Stop Unit := do
  execute env .openDatabase
  execute env .verifyRuntime
  execute env .validateSchema
  execute env .quickCheck
  match files.database path with
  | some rows => do
      let (project, head, sequence) ← restore rows env
      refuse (sequence ≠ state.sequence ∨ head ≠ state.head ∨
        project.semanticDigest ≠ state.project.semanticDigest) .corruptStore
  | none => corrupt

/-- `File::open` on a directory; there is none at the empty path. -/
def openDirectory (path : Path) (env : Env) : Except Stop Unit := do
  execute env .openParent
  refuse (path = Path.empty) (.sql .failed)

def syncArchiveParent (destination : Path) (env : Env) : Except Stop Unit :=
  match destination.parent with
  | none => raise (.maintenance .archive)
  | some parent =>
      if env.unix then do
        mapErr (.maintenance .archive) (openDirectory parent env)
        mapErr (.maintenance .archive) (execute env .syncParent)
      else .ok ()

def archive (state : State) (destination : Path) (fault : Option FaultPoint) (env : Env) :
    Proc Stop Files Unit := do
  let files ← get
  refuse (destination = state.databasePath ∨ destination = withSuffix state.databasePath "-wal" ∨
    destination = withSuffix state.databasePath "-shm" ∨ (files.entries destination).isSome)
    (.maintenance .archive)
  maintenanceFault fault .beforeArchive
  let temporary ← archiveTemporaryPath destination env
  backup state.connection temporary env
  maintenanceFault fault .duringArchive
  let files ← get
  mapErr (.maintenance .archive) (validateArchive temporary state files env)
  mapErr (.maintenance .archive) (execute env .syncArchive)
  maintenanceFault fault .afterArchive
  mapErr (.maintenance .archive) (execute env .renameArchive)
  modify fun files => files.rename temporary destination
  syncArchiveParent destination env

end Archive

end StitchEditor
